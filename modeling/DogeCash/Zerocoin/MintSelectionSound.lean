import DogeCash.Foundation.ChangeMaking
import DogeCash.Zerocoin.MintSelection

/-! # Selected mints are worth the target

Every loop of the selection ends, and takes no more coins than are held. The coins that
`minimizeChange` finds are taken again from the largest denomination on; since the denominations
divide each other, this meets the same amount.
-/

namespace DogeCash

open List (mem_cons_of_mem mem_cons_self mem_reverse nodup_cons)
open CoinTally (takeCoins take_mapUsed_of_ne take_mapUsed_self)
open Ends (loop ret foldlM bind)
open Bool (and_eq_true)
open MintSpends (select)

open Function (update update_of_ne update_self)

open CoinDenomination

/-- What the coins of a map are worth. -/
def DenomMap.total (used : DenomMap) : Int := worth toAmount denomList.reverse used

def DenomMap.coins (used : DenomMap) : Int := worth (fun _ => 1) denomList.reverse used

/-- No more coins are used of a denomination than are held. -/
def DenomMap.Within (held used : DenomMap) : Prop :=
  ∀ denom ∈ denomList.reverse, 0 ≤ used denom ∧ used denom ≤ held denom

/-- What is spent fits an `int64_t`: either all coins held do, or the target with the change of one
coin. -/
def DenomMap.Room (held : DenomMap) (nValueTarget : Int) : Prop :=
  DenomMap.total held < 2 ^ 63 ∨ nValueTarget + 5000 * COIN < 2 ^ 63

def unusedMints (listMints : List CMintMeta) (denom : CoinDenomination) : List CMintMeta :=
  listMints.filter fun mint => !mint.isUsed && denom = mint.denom

/-- `mapOfDenomsHeld` counts the unused mints of each denomination. -/
def DenomMap.Counts (held : DenomMap) (listMints : List CMintMeta) : Prop :=
  ∀ denom ∈ denomList, held denom = (unusedMints listMints denom).length

/-- The selected mints are distinct unused mints of the list, the selected value is their total and
at least the target, and the change is paid with the returned number of coins. -/
structure SelectedMints.IsSound (listMints : List CMintMeta) (nValueTarget : Int)
    (selected : SelectedMints) : Prop where
  nodup : selected.vSelectedMints.Nodup
  unused : ∀ mint ∈ selected.vSelectedMints, mint ∈ listMints ∧ mint.isUsed = false
  total : selected.nSelectedValue =
    (selected.vSelectedMints.map fun mint => mint.denom.toAmount).sum
  enough : nValueTarget ≤ selected.nSelectedValue
  change : selected.nCoinsReturned =
    changeCount toAmount denomList.reverse (selected.nSelectedValue - nValueTarget)

theorem coinage : Coinage toAmount denomList.reverse := ⟨by decide, by decide, by decide⟩

section Tallies

variable {held used : DenomMap} {nValueTarget : Int} {tally : CoinTally} {coin : CoinDenomination}
  {fuel : ℕ}

theorem total_update (mem : coin ∈ denomList.reverse) (count : Int) :
    DenomMap.total (update used coin count) =
      DenomMap.total used + coin.toAmount * (count - used coin) :=
  worth_update coinage.nodup mem count

theorem getNumberOfCoinsUsed_eq (used : DenomMap) :
    getNumberOfCoinsUsed used = wrapInt (DenomMap.coins used) := by
  have count := foldl_wrapInt used denomList 0
  rw [zero_add] at count
  rw [DenomMap.coins, worth_reverse, worth, getNumberOfCoinsUsed]
  simp only [one_mul]
  exact count

theorem toAmount_bounds :
    ∀ denom ∈ denomList.reverse, COIN ≤ denom.toAmount ∧ denom.toAmount ≤ 5000 * COIN := by
  decide

section

variable (within : held.Within used)
include within

theorem DenomMap.Within.total_nonneg : 0 ≤ DenomMap.total used :=
  worth_nonneg coinage.positive fun denom mem => (within denom mem).1

theorem DenomMap.Within.total_le : DenomMap.total used ≤ DenomMap.total held :=
  worth_mono coinage.positive fun denom mem => (within denom mem).2

theorem DenomMap.Room.total_lt (room : held.Room nValueTarget)
    (slack : DenomMap.total used ≤ nValueTarget + 5000 * COIN) : DenomMap.total used < 2 ^ 63 :=
  room.elim within.total_le.trans_lt slack.trans_lt

end

/-- The numbers of coins that a loop has taken fit what is held, and what remains is the target less
their worth. The last coin may be larger than what remained. -/
structure CoinTally.Fits (held : DenomMap) (nValueTarget : Int) (tally : CoinTally) : Prop where
  within : held.Within tally.mapUsed
  amount : tally.amountUsed = wrapInt64 (DenomMap.total tally.mapUsed)
  balance : DenomMap.total tally.mapUsed + tally.nRemainingValue = nValueTarget
  slack : -(5000 * COIN) ≤ tally.nRemainingValue

theorem CoinTally.take_nRemainingValue (inside : coin ∈ denomList.reverse)
    (nonneg : 0 ≤ tally.nRemainingValue) (below : tally.nRemainingValue < 2 ^ 63) :
    (tally.take coin).nRemainingValue = tally.nRemainingValue - coin.toAmount := by
  obtain ⟨least, most⟩ := toAmount_bounds coin inside
  exact wrapInt64_of_fits ⟨by rw [COIN] at most; omega, by rw [COIN] at least; omega⟩

theorem DenomMap.Within.update (within : held.Within used) {count : Int} (nonneg : 0 ≤ count)
    (room : count ≤ held coin) : held.Within (update used coin count) := by
  intro denom mem
  by_cases same : denom = coin
  · rw [same, update_self]
    exact ⟨nonneg, room⟩
  · rw [update_of_ne same]
    exact within denom mem

namespace CoinTally.Fits

theorem start (nonneg : ∀ denom ∈ denomList.reverse, 0 ≤ held denom) (target : 0 ≤ nValueTarget) :
    (CoinTally.start nValueTarget).Fits held nValueTarget where
  within := fun denom mem => ⟨le_rfl, nonneg denom mem⟩
  amount := congrArg wrapInt64 worth_zero.symm
  balance := by
    rw [DenomMap.total, CoinTally.start, worth_zero, zero_add]
  slack := by
    have start : (CoinTally.start nValueTarget).nRemainingValue = nValueTarget := rfl
    rw [start, COIN]
    omega

variable (fits : tally.Fits held nValueTarget)
include fits

theorem total_le : DenomMap.total tally.mapUsed ≤ nValueTarget + 5000 * COIN := by
  have balance := fits.balance
  have slack := fits.slack
  omega

variable (below : nValueTarget < 2 ^ 63)
include below

theorem remaining_lt : tally.nRemainingValue < 2 ^ 63 := by
  have spent := fits.within.total_nonneg
  have balance := fits.balance
  omega

theorem take (mem : coin ∈ denomList.reverse) (some : 0 ≤ tally.nRemainingValue)
    (room : tally.mapUsed coin < held coin) : (tally.take coin).Fits held nValueTarget := by
  have left := take_nRemainingValue mem some (fits.remaining_lt below)
  have most := (toAmount_bounds coin mem).2
  have more : DenomMap.total (tally.take coin).mapUsed =
      DenomMap.total tally.mapUsed + coin.toAmount := by
    rw [CoinTally.take, total_update mem]
    ring
  refine ⟨fits.within.update (Int.le_add_one (fits.within coin mem).1)
    (Int.add_one_le_of_lt room), ?_, ?_, by omega⟩
  · rw [more, ← wrapInt64_wrap_add, ← fits.amount]
    rfl
  · rw [more, left, ← fits.balance]
    ring

/-- What is spent beyond the target is the change, also where the amount spent has wrapped. -/
theorem change : subInt64 tally.amountUsed nValueTarget = -tally.nRemainingValue := by
  have balance := fits.balance
  have slack := fits.slack
  have upper := fits.remaining_lt below
  rw [subInt64, fits.amount, wrapInt64_wrap_sub, ← balance, sub_add_cancel_left]
  exact wrapInt64_of_fits ⟨by omega, by rw [COIN] at slack; omega⟩

end CoinTally.Fits

theorem takeCoins_ends {can : CoinTally → Bool} (invariant : CoinTally → Prop)
    (measure : CoinTally → ℕ)
    (step : ∀ tally, invariant tally → can tally = true →
      invariant (tally.take coin) ∧ measure (tally.take coin) < measure tally)
    (start : invariant tally) :
    Ends (fun final => invariant final ∧ can final = false) fun fuel =>
      takeCoins can coin fuel tally := by
  refine loop invariant invariant measure ?_ ?_ ?_ start
  · intro state holds
    split_ifs with able
    · exact (step state holds able).1
    · exact holds
  · exact fun state holds _ => holds
  · intro state holds goesOn
    split_ifs at goesOn ⊢ with able
    · exact (step state holds able).2
    · exact absurd goesOn able

/-! ## The amounts of `getSpendCoins` and `getChange` -/

variable {rest : List CoinDenomination}

section

variable (below : nValueTarget < 2 ^ 63)
include below

/-- The loop of `getSpendCoins` over one denomination: the smaller ones can pay what remains. -/
theorem canSpend_ends (inside : coin ∈ denomList.reverse)
    (smaller : Coinage toAmount (coin :: rest)) (fits : tally.Fits held nValueTarget)
    (unused : ∀ denom ∈ coin :: rest, tally.mapUsed denom = 0)
    (payable : Payable toAmount held (coin :: rest) tally.nRemainingValue) :
    Ends (fun final => final.Fits held nValueTarget ∧ (∀ denom ∈ rest, final.mapUsed denom = 0) ∧
        Payable toAmount held rest final.nRemainingValue)
      fun fuel => takeCoins (canSpend held coin) coin fuel tally := by
  have nonneg : 0 ≤ tally.nRemainingValue := by
    obtain ⟨used, bounded, total⟩ := payable
    exact total ▸ worth_nonneg smaller.positive fun denom mem => (bounded denom mem).1
  refine (takeCoins_ends (fun state => state.Fits held nValueTarget ∧
      (∀ denom ∈ rest, state.mapUsed denom = 0) ∧ 0 ≤ state.nRemainingValue ∧
        state.nRemainingValue = tally.nRemainingValue - coin.toAmount * state.mapUsed coin)
    (fun state => (held coin - state.mapUsed coin).toNat) ?_ ⟨fits, ?_, nonneg, ?_⟩).mono ?_
  · rintro state ⟨stateFits, restUnused, left, same⟩ able
    rw [canSpend, and_eq_true, decide_eq_true_eq, decide_eq_true_eq] at able
    have next := CoinTally.take_nRemainingValue inside left (stateFits.remaining_lt below)
    refine ⟨⟨stateFits.take below inside left able.2, fun denom mem => ?_, ?_, ?_⟩, ?_⟩
    · rw [take_mapUsed_of_ne, restUnused denom mem]
      rintro rfl
      exact smaller.head_not_mem mem
    · exact next.symm ▸ sub_nonneg.mpr able.1
    · rw [next, take_mapUsed_self, same]
      ring
    · rw [take_mapUsed_self]
      omega
  · exact fun denom mem => unused denom (mem_cons_of_mem _ mem)
  · rw [unused coin mem_cons_self, mul_zero, sub_zero]
  · rintro final ⟨⟨finalFits, restUnused, left, same⟩, done⟩
    refine ⟨finalFits, restUnused, same ▸ payable.tail smaller (same ▸ left) ?_⟩
    rw [← same]
    simpa [canSpend, imp_iff_not_or] using done

theorem getSpendCoins_ends (nonneg : ∀ denom ∈ denomList.reverse, 0 ≤ held denom)
    (payable : Payable toAmount held denomList.reverse nValueTarget) :
    Ends (fun used => held.Within used ∧ DenomMap.total used = nValueTarget)
      fun fuel => getSpendCoins fuel nValueTarget held := by
  have target : 0 ≤ nValueTarget := by
    obtain ⟨used, bounded, total⟩ := payable
    exact total ▸ worth_nonneg coinage.positive fun denom mem => (bounded denom mem).1
  refine (foldlM (fun rest tally => rest ⊆ denomList.reverse ∧ Coinage toAmount rest ∧
      tally.Fits held nValueTarget ∧ (∀ denom ∈ rest, tally.mapUsed denom = 0) ∧
        Payable toAmount held rest tally.nRemainingValue) ?_ denomList.reverse
      ⟨List.Subset.refl _, coinage, .start nonneg target, fun _ _ => rfl, payable⟩).map ?_
  · rintro coin rest tally ⟨inside, smaller, fits, unused, payable⟩
    exact (canSpend_ends below (inside mem_cons_self) smaller fits unused payable).mono
      fun final holds =>
        ⟨fun denom mem => inside (mem_cons_of_mem _ mem), smaller.tail, holds⟩
  · rintro tally ⟨-, -, fits, -, used, -, total⟩
    refine ⟨fits.within, ?_⟩
    rw [← fits.balance, ← total, worth, List.map_nil, List.sum_nil, add_zero]

end

/-- `getSpendCoins` takes no more than is held, whatever the amount. -/
theorem getSpendCoins_within (nonneg : ∀ denom ∈ denomList.reverse, 0 ≤ held denom) :
    Ends (DenomMap.Within held) fun fuel => getSpendCoins fuel nValueTarget held := by
  refine (foldlM (fun rest (tally : CoinTally) => rest ⊆ denomList.reverse ∧
      held.Within tally.mapUsed) ?_ denomList.reverse
      ⟨List.Subset.refl _, fun denom mem => ⟨le_rfl, nonneg denom mem⟩⟩).map
        fun tally holds => holds.2
  rintro coin rest tally ⟨inside, within⟩
  refine (takeCoins_ends (fun state => held.Within state.mapUsed)
    (fun state => (held coin - state.mapUsed coin).toNat) ?_ within).mono
      fun final holds => ⟨fun denom mem => inside (mem_cons_of_mem _ mem), holds.1⟩
  intro state stateWithin able
  rw [canSpend, and_eq_true, decide_eq_true_eq, decide_eq_true_eq] at able
  have used := (stateWithin coin (inside mem_cons_self)).1
  refine ⟨stateWithin.update (Int.le_add_one used) (Int.add_one_le_of_lt able.2), ?_⟩
  rw [take_mapUsed_self]
  omega

def changeNumber (rest : List CoinDenomination) (amount : Int) : Int :=
  changeCount toAmount rest (max amount 0)

theorem changeNumber_cons_of_le (positive : 0 < coin.toAmount) {amount : Int}
    (fits : coin.toAmount ≤ amount) :
    changeNumber (coin :: rest) amount =
      changeNumber (coin :: rest) (amount - coin.toAmount) + 1 := by
  have nonneg : 0 ≤ amount - coin.toAmount := sub_nonneg.mpr fits
  rw [changeNumber, changeNumber, max_eq_left nonneg, max_eq_left (positive.le.trans fits),
    changeCount, changeCount, Int.sub_emod_right, Int.sub_ediv_of_dvd _ (dvd_refl _),
    Int.ediv_self positive.ne']
  ring

theorem changeNumber_cons_of_lt (positive : 0 < coin.toAmount) {amount : Int}
    (small : amount < coin.toAmount) :
    changeNumber (coin :: rest) amount = changeNumber rest amount := by
  have below : max amount 0 < coin.toAmount := max_lt small positive
  rw [changeNumber, changeNumber, changeCount, Int.ediv_eq_zero_of_lt (le_max_right _ _) below,
    Int.emod_eq_of_lt (le_max_right _ _) below, zero_add]

theorem coins_take (inside : coin ∈ denomList.reverse) :
    DenomMap.coins (tally.take coin).mapUsed = DenomMap.coins tally.mapUsed + 1 := by
  rw [DenomMap.coins, DenomMap.coins, CoinTally.take, worth_update coinage.nodup inside]
  ring

/-- The loop of `getChange` over one denomination. -/
theorem canChange_ends (inside : coin ∈ denomList.reverse) (below : tally.nRemainingValue < 2 ^ 63)
    (counted : DenomMap.coins tally.mapUsed + changeNumber (coin :: rest)
      tally.nRemainingValue = changeNumber denomList.reverse nValueTarget) :
    Ends (fun final => final.nRemainingValue < 2 ^ 63 ∧ DenomMap.coins final.mapUsed +
        changeNumber rest final.nRemainingValue = changeNumber denomList.reverse nValueTarget)
      fun fuel => takeCoins (canChange coin) coin fuel tally := by
  have positive := coinage.positive coin inside
  refine (takeCoins_ends (fun state => state.nRemainingValue < 2 ^ 63 ∧
      DenomMap.coins state.mapUsed + changeNumber (coin :: rest) state.nRemainingValue =
        changeNumber denomList.reverse nValueTarget)
    (fun state => state.nRemainingValue.toNat) ?_ ⟨below, counted⟩).mono ?_
  · rintro state ⟨small, same⟩ able
    rw [canChange, decide_eq_true_eq] at able
    have next := CoinTally.take_nRemainingValue inside (positive.le.trans able) small
    refine ⟨⟨by omega, ?_⟩, by omega⟩
    rw [coins_take inside, next, ← same, changeNumber_cons_of_le positive able]
    ring
  · rintro final ⟨⟨small, same⟩, done⟩
    rw [canChange, decide_eq_false_iff_not, not_le] at done
    exact ⟨small, by rw [← same, changeNumber_cons_of_lt positive done]⟩

theorem getChange_ends {amount : Int} (below : amount < 2 ^ 63) :
    Ends (fun change => DenomMap.coins change = changeNumber denomList.reverse amount)
      fun fuel => getChange fuel amount := by
  refine (foldlM (fun rest tally => rest ⊆ denomList.reverse ∧
      tally.nRemainingValue < 2 ^ 63 ∧ DenomMap.coins tally.mapUsed +
        changeNumber rest tally.nRemainingValue = changeNumber denomList.reverse amount) ?_
      denomList.reverse ⟨List.Subset.refl _, below, zero_add _⟩).map ?_
  · rintro coin rest tally ⟨inside, small, counted⟩
    exact (canChange_ends (inside mem_cons_self) small counted).mono
      fun final holds => ⟨fun denom mem => inside (mem_cons_of_mem _ mem), holds⟩
  · rintro tally ⟨-, -, counted⟩
    exact (add_zero _).symm.trans counted

/-- The change of one coin is few coins, which an `int` counts exactly. -/
theorem getNumberOfCoinsUsed_change {change : DenomMap} {amount : Int}
    (small : amount ≤ 5000 * COIN)
    (counted : DenomMap.coins change = changeNumber denomList.reverse amount) :
    getNumberOfCoinsUsed change = changeNumber denomList.reverse amount := by
  obtain ⟨nonneg, few⟩ := changeCount_mul_le (by decide : 0 < COIN)
    (fun denom mem => (toAmount_bounds denom mem).1) (le_max_right amount 0)
  rw [getNumberOfCoinsUsed_eq, counted]
  refine wrapInt_of_lt nonneg ?_
  rw [changeNumber]
  rw [COIN] at few small
  omega

/-! ## The coins for change -/

/-- Coins that are held, with the number of coins in their change. -/
def GivesChange (held : DenomMap) (nValueTarget : Int) (spent : Int × DenomMap) : Prop :=
  held.Within spent.2 ∧ DenomMap.total spent.2 ≤ nValueTarget + 5000 * COIN ∧
    spent.1 = changeNumber denomList.reverse (DenomMap.total spent.2 - nValueTarget)

section

variable (below : nValueTarget < 2 ^ 63)
include below

theorem approach_ends (nextToMaxDenom : CoinDenomination) (inside : coin ∈ denomList.reverse)
    (fits : tally.Fits held nValueTarget) (positive : 0 < tally.nRemainingValue) :
    Ends (fun final => final.Fits held nValueTarget ∧ 0 < final.nRemainingValue)
      fun fuel => approach held nextToMaxDenom fuel tally coin := by
  by_cases low : coin.toInt ≤ nextToMaxDenom.toInt
  · simp only [approach, if_pos low]
    refine (takeCoins_ends (fun state => state.Fits held nValueTarget ∧ 0 < state.nRemainingValue)
      (fun state => (held coin - state.mapUsed coin).toNat) ?_ ⟨fits, positive⟩).mono
        fun final holds => holds.1
    rintro state ⟨stateFits, left⟩ able
    rw [canApproach, and_eq_true, decide_eq_true_eq, decide_eq_true_eq] at able
    have next := CoinTally.take_nRemainingValue inside left.le (stateFits.remaining_lt below)
    refine ⟨⟨stateFits.take below inside left.le able.2, by omega⟩, ?_⟩
    rw [take_mapUsed_self]
    omega
  · simp only [approach, if_neg low]
    exact ret ⟨fits, positive⟩

theorem fillUp_fits {denoms : List CoinDenomination} (inside : denoms ⊆ denomList.reverse)
    (fits : tally.Fits held nValueTarget) (nonneg : 0 ≤ tally.nRemainingValue) :
    (fillUp held denoms tally).Fits held nValueTarget := by
  induction denoms generalizing tally with
  | nil => exact fits
  | cons denom denoms ih =>
    have taken : (if (tally.nRemainingValue < denom.toAmount &&
        tally.mapUsed denom < held denom) = true then tally.take denom else tally).Fits held
          nValueTarget := by
      split_ifs with able
      · rw [and_eq_true, decide_eq_true_eq, decide_eq_true_eq] at able
        exact fits.take below (inside mem_cons_self) nonneg able.2
      · exact fits
    simp only [fillUp]
    generalize (if (tally.nRemainingValue < denom.toAmount &&
      tally.mapUsed denom < held denom) = true then tally.take denom else tally) = next at taken ⊢
    split_ifs with beyond
    · exact taken
    · exact ih (fun coin mem => inside (mem_cons_of_mem _ mem)) taken (not_lt.mp beyond)

end

/-- What dropping coins keeps: the coins left are held, and the amount spent is their worth. -/
structure Holds (held : DenomMap) (most : Int) (state : CoinTally × DenomMap) : Prop where
  within : held.Within state.1.mapUsed
  amount : state.1.amountUsed = wrapInt64 (DenomMap.total state.1.mapUsed)
  most : DenomMap.total state.1.mapUsed ≤ most

theorem dropOverlap_ends (inside : coin ∈ denomList.reverse) {state : CoinTally × DenomMap}
    {most : Int} (holds : Holds held most state) :
    Ends (Holds held most) fun fuel => dropOverlap fuel state coin := by
  refine (loop (Holds held most) (Holds held most) (fun state => (state.1.mapUsed coin).toNat) ?_
    (fun state stateHolds _ => stateHolds) ?_ holds).mono fun final finalHolds => finalHolds.1
  · rintro state ⟨within, amount, upper⟩
    split_ifs with overlaps
    · rw [and_eq_true, decide_eq_true_eq, decide_eq_true_eq] at overlaps
      obtain ⟨nonneg, room⟩ := within coin inside
      have less : DenomMap.total (update state.1.mapUsed coin (state.1.mapUsed coin - 1)) =
          DenomMap.total state.1.mapUsed - coin.toAmount := by
        rw [total_update inside]
        ring
      have positive := coinage.positive coin inside
      refine ⟨within.update (by omega) (by omega), ?_, less.trans_le (by omega)⟩
      rw [less, amount, subInt64, wrapInt64_wrap_sub]
    · exact ⟨within, amount, upper⟩
  · rintro state ⟨within, -, -⟩ goesOn
    obtain ⟨nonneg, -⟩ := within coin inside
    split_ifs at goesOn ⊢ with overlaps
    · rw [and_eq_true, decide_eq_true_eq, decide_eq_true_eq] at overlaps
      simp only [update_self]
      omega
    · exact absurd goesOn overlaps

/-- The coins that exceed the target, with their change. -/
theorem givesChange_of_fits (below : nValueTarget < 2 ^ 63)
    (fits : tally.Fits held nValueTarget) :
    Ends (fun change => GivesChange held nValueTarget (getNumberOfCoinsUsed change, tally.mapUsed))
      fun fuel => getChange fuel (subInt64 tally.amountUsed nValueTarget) := by
  have left : DenomMap.total tally.mapUsed - nValueTarget = -tally.nRemainingValue := by
    rw [← fits.balance]
    ring
  have slack := fits.slack
  rw [fits.change below, ← left]
  have small : DenomMap.total tally.mapUsed - nValueTarget ≤ 5000 * COIN := by omega
  exact (getChange_ends (by rw [COIN] at small; omega)).mono fun change counted =>
    ⟨fits.within, fits.total_le, getNumberOfCoinsUsed_change small counted⟩

section

variable (nonneg : ∀ denom ∈ denomList.reverse, 0 ≤ held denom) (positive : 0 < nValueTarget)
  (below : nValueTarget < 2 ^ 63)
include nonneg positive below

/-- Coins whose amount does not wrap are taken again, with their change. -/
theorem respend_ends {used : DenomMap} (within : held.Within used)
    (slack : DenomMap.total used ≤ nValueTarget + 5000 * COIN)
    (fits : DenomMap.total used < 2 ^ 63) :
    Ends (fun mapSpent => held.Within mapSpent ∧ DenomMap.total mapSpent = DenomMap.total used)
      (fun fuel => getSpendCoins fuel (wrapInt64 (DenomMap.total used)) held) ∧
    Ends (fun change => getNumberOfCoinsUsed change =
        changeNumber denomList.reverse (DenomMap.total used - nValueTarget))
      fun fuel => getChange fuel (subInt64 (wrapInt64 (DenomMap.total used)) nValueTarget) := by
  have spent := within.total_nonneg
  have exact : subInt64 (DenomMap.total used) nValueTarget =
      DenomMap.total used - nValueTarget := wrapInt64_of_fits ⟨by omega, by omega⟩
  rw [wrapInt64_of_fits ⟨by omega, fits⟩, exact]
  exact ⟨getSpendCoins_ends fits nonneg ⟨used, within, rfl⟩,
    (getChange_ends (by omega)).mono fun change => getNumberOfCoinsUsed_change (by omega)⟩

/-- `minimizeChange` leaves what it was given, or finds few enough coins, with their change where
the amount spent does not wrap. -/
theorem minimizeChange_ends (nMaxNumberOfSpends nChangeCount : Int)
    (nextToMaxDenom : CoinDenomination) :
    Ends (fun spent => spent = (nChangeCount, used) ∨
        getNumberOfCoinsUsed spent.2 ≤ nMaxNumberOfSpends ∧ held.Within spent.2 ∧
          (held.Room nValueTarget → GivesChange held nValueTarget spent)) fun fuel =>
      minimizeChange fuel nMaxNumberOfSpends nChangeCount nextToMaxDenom nValueTarget held
        used := by
  simp only [minimizeChange]
  refine bind (foldlM (fun rest tally => rest ⊆ denomList.reverse ∧
    tally.Fits held nValueTarget ∧ 0 < tally.nRemainingValue) ?_ denomList.reverse
      ⟨List.Subset.refl _, .start nonneg positive.le, positive⟩) ?_
  · rintro coin rest tally ⟨inside, fits, left⟩
    exact (approach_ends below nextToMaxDenom (inside mem_cons_self) fits left).mono
      fun final holds => ⟨fun denom mem => inside (mem_cons_of_mem _ mem), holds⟩
  rintro belowTarget ⟨-, fits, left⟩
  have filled := fillUp_fits below (fun coin mem => mem_reverse.mpr mem) fits left.le
  refine bind (getChange_ends (fits_wrapInt64 _).2) fun mapAltChange _ => ?_
  refine bind (foldlM (fun rest state => rest ⊆ denomList.reverse ∧
      Holds held (nValueTarget + 5000 * COIN) state) ?_ denomList
    ⟨fun coin mem => mem_reverse.mpr mem, filled.within, filled.amount, ?_⟩) ?_
  · rintro coin rest state ⟨inside, holds⟩
    exact (dropOverlap_ends (inside mem_cons_self) holds).mono
      fun final next => ⟨fun denom mem => inside (mem_cons_of_mem _ mem), next⟩
  · exact filled.total_le
  rintro separate ⟨-, within, amount, slack⟩
  rw [amount]
  by_cases fitting : DenomMap.total separate.1.mapUsed < 2 ^ 63
  · obtain ⟨spends, changes⟩ := respend_ends nonneg positive below within slack fitting
    refine bind spends fun mapSpent again => bind changes fun mapAltChange counted => ?_
    split_ifs with fewer
    · exact ret (.inr ⟨fewer.2, again.1, fun _ =>
        ⟨again.1, again.2.trans_le slack, by rw [counted, again.2]⟩⟩)
    · exact ret (.inl rfl)
  · refine bind (getSpendCoins_within nonneg) fun mapSpent spentWithin => ?_
    refine bind (getChange_ends (fits_wrapInt64 _).2) fun mapAltChange _ => ?_
    split_ifs with fewer
    · exact ret (.inr ⟨fewer.2, spentWithin, fun room =>
        absurd (room.total_lt within slack) fitting⟩)
    · exact ret (.inl rfl)

omit positive in
theorem exceed_ends {denoms : List CoinDenomination} (inside : denoms ⊆ denomList.reverse)
    (distinct : denoms.Nodup) (fits : tally.Fits held nValueTarget)
    (unused : ∀ denom ∈ denoms, tally.mapUsed denom = 0) :
    Ends (CoinTally.Fits held nValueTarget) fun fuel => exceed held fuel denoms tally := by
  induction denoms generalizing tally with
  | nil => exact ret fits
  | cons denom denoms ih =>
    have here := inside mem_cons_self
    obtain ⟨fresh, distinctRest⟩ := nodup_cons.mp distinct
    refine bind (loop (fun state => (state.Fits held nValueTarget ∧
        ∀ smaller ∈ denoms, state.mapUsed smaller = 0) ∧
          (held denom ≠ 0 → state.mapUsed denom < held denom))
      (fun state => state.Fits held nValueTarget ∧ ∀ smaller ∈ denoms, state.mapUsed smaller = 0)
      (fun state => (held denom - state.mapUsed denom).toNat) ?_ ?_ ?_ ?_) ?_
    · rintro state ⟨⟨stateFits, restUnused⟩, room⟩
      split_ifs with able
      · refine ⟨stateFits.take below here able.2.le (room able.1), fun smaller mem => ?_⟩
        rw [take_mapUsed_of_ne, restUnused smaller mem]
        rintro rfl
        exact fresh mem
      · exact ⟨stateFits, restUnused⟩
    · intro state holds goesOn
      rw [and_eq_true, decide_eq_true_eq, decide_eq_true_eq] at goesOn
      exact ⟨holds, fun _ => goesOn.2⟩
    · rintro state ⟨⟨stateFits, -⟩, -⟩ goesOn
      rw [and_eq_true, decide_eq_true_eq, decide_eq_true_eq] at goesOn
      have used := (stateFits.within denom here).1
      split_ifs at goesOn ⊢ with able
      · rw [take_mapUsed_self] at goesOn ⊢
        omega
      · omega
    · refine ⟨⟨fits, fun smaller mem => unused smaller (mem_cons_of_mem _ mem)⟩, ?_⟩
      intro some
      rw [unused denom mem_cons_self]
      exact lt_of_le_of_ne (nonneg denom here) (Ne.symm some)
    · rintro next ⟨⟨nextFits, nextUnused⟩, -⟩
      split_ifs
      · exact ret nextFits
      · exact ih (fun coin mem => inside (mem_cons_of_mem _ mem)) distinctRest nextFits
          nextUnused

theorem calculateChange_ends (room : held.Room nValueTarget) (nMaxNumberOfSpends : Int)
    (fMinimizeChange : Bool) :
    Ends (GivesChange held nValueTarget) fun fuel =>
      calculateChange fuel nMaxNumberOfSpends fMinimizeChange nValueTarget held := by
  unfold calculateChange
  cases larger : denomList.find? fun denom => nValueTarget < denom.toAmount && held denom ≠ 0 with
  | some denom =>
    have mem := List.mem_of_find?_eq_some larger
    have inside : denom ∈ denomList.reverse := mem_reverse.mpr mem
    have present := List.find?_some larger
    rw [and_eq_true, decide_eq_true_eq, decide_eq_true_eq] at present
    have one : held.Within (update (fun _ => 0) denom 1) :=
      DenomMap.Within.update (fun coin mem => ⟨le_rfl, nonneg coin mem⟩) Int.one_nonneg
        (Int.add_one_le_of_lt (lt_of_le_of_ne (nonneg denom inside) (Ne.symm present.2)))
    have amount : DenomMap.total (update (fun _ => 0) denom 1) = denom.toAmount := by
      rw [total_update inside, DenomMap.total, worth_zero]
      ring
    have most := (toAmount_bounds denom inside).2
    have exact : subInt64 denom.toAmount nValueTarget = denom.toAmount - nValueTarget :=
      wrapInt64_of_fits ⟨by omega, by rw [COIN] at most; omega⟩
    simp only [changeOfOne]
    rw [exact]
    refine bind (getChange_ends (by rw [COIN] at most; omega)) fun mapChange counted => ?_
    have gives : GivesChange held nValueTarget
        (getNumberOfCoinsUsed mapChange, update (fun _ => 0) denom 1) := by
      refine ⟨one, by rw [amount]; omega, ?_⟩
      rw [amount]
      exact getNumberOfCoinsUsed_change (by omega) counted
    split_ifs
    · refine bind (minimizeChange_ends nonneg positive below _ _ _) fun smaller found => ?_
      have better : GivesChange held nValueTarget smaller :=
        found.elim (fun same => same ▸ gives) fun other => other.2.2 room
      split_ifs
      · exact ret better
      · exact ret gives
    · exact ret gives
  | none =>
    refine bind (exceed_ends nonneg below (List.Subset.refl _) coinage.nodup
      (.start nonneg positive.le) fun _ _ => rfl) fun tally fits => ?_
    refine bind (givesChange_of_fits below fits) fun mapChange gives => ?_
    refine bind (minimizeChange_ends nonneg positive below _ _ _) fun smaller found => ?_
    split_ifs
    · exact ret gives
    · exact ret (found.elim (fun same => same ▸ gives) fun other => other.2.2 room)

end

end Tallies

/-! ## The mints -/

section Mints

variable {held used : DenomMap} {listMints : List CMintMeta} {nValueTarget : Int}
  {tally : CoinTally} {spends : MintSpends} {coin : CoinDenomination}

variable {mint : CMintMeta}

theorem mem_unusedMints :
    mint ∈ unusedMints listMints coin ↔
      mint ∈ listMints ∧ mint.isUsed = false ∧ coin = mint.denom := by
  rw [unusedMints, List.mem_filter, and_eq_true, Bool.not_eq_true', decide_eq_true_eq]

theorem DenomMap.Counts.nonneg (counts : held.Counts listMints) :
    ∀ denom ∈ denomList.reverse, 0 ≤ held denom := by
  intro denom mem
  rw [counts denom (mem_reverse.mp mem)]
  exact Int.natCast_nonneg _

theorem unusedMints_cons_of_pos (unused : mint.isUsed = false) (same : coin = mint.denom) :
    unusedMints (mint :: listMints) coin = mint :: unusedMints listMints coin :=
  List.filter_cons_of_pos (by simp [unused, same])

theorem unusedMints_cons_of_neg (other : ¬(mint.isUsed = false ∧ coin = mint.denom)) :
    unusedMints (mint :: listMints) coin = unusedMints listMints coin :=
  List.filter_cons_of_neg (by simpa using other)

section

variable (below : nValueTarget < 2 ^ 63)
include below

theorem idealPass_fits (inside : coin ∈ denomList.reverse) (fits : tally.Fits held nValueTarget)
    (room : tally.mapUsed coin + (unusedMints listMints coin).length ≤ held coin) :
    (idealPass coin listMints tally).Fits held nValueTarget ∧
      ∀ denom, denom ≠ coin → (idealPass coin listMints tally).mapUsed denom =
        tally.mapUsed denom := by
  induction listMints generalizing tally with
  | nil => exact ⟨fits, fun _ _ => rfl⟩
  | cons mint listMints ih =>
    simp only [idealPass]
    by_cases used : mint.isUsed = true
    · rw [if_pos used]
      rw [unusedMints_cons_of_neg fun both => by simp [used] at both] at room
      exact ih fits room
    have unused := Bool.eq_false_iff.mpr used
    -- What the mint adds to the tally still leaves room for the mints after it.
    have next : ∃ after : CoinTally, (if (coin.toAmount ≤ tally.nRemainingValue &&
        coin = mint.denom) = true then tally.take coin else tally) = after ∧
          after.Fits held nValueTarget ∧
            after.mapUsed coin + (unusedMints listMints coin).length ≤ held coin ∧
              ∀ denom, denom ≠ coin → after.mapUsed denom = tally.mapUsed denom := by
      refine ⟨_, rfl, ?_⟩
      split_ifs with able
      · rw [and_eq_true, decide_eq_true_eq, decide_eq_true_eq] at able
        rw [unusedMints_cons_of_pos unused able.2, List.length_cons] at room
        have left := (coinage.positive coin inside).le.trans able.1
        refine ⟨fits.take below inside left (by omega), ?_, fun _ => take_mapUsed_of_ne⟩
        rw [take_mapUsed_self]
        omega
      · refine ⟨fits, le_trans ?_ room, fun _ _ => rfl⟩
        by_cases same : coin = mint.denom
        · rw [unusedMints_cons_of_pos unused same, List.length_cons]
          omega
        · rw [unusedMints_cons_of_neg fun both => same both.2]
    obtain ⟨after, taken, afterFits, space, same⟩ := next
    rw [taken]
    split_ifs
    · exact ⟨afterFits, same⟩
    · obtain ⟨finalFits, unchanged⟩ := ih afterFits space
      exact ⟨finalFits, fun denom other => (unchanged denom other).trans (same denom other)⟩

theorem foldl_idealPass_fits (counts : held.Counts listMints) {denoms : List CoinDenomination}
    (inside : denoms ⊆ denomList.reverse) (distinct : denoms.Nodup)
    (fits : tally.Fits held nValueTarget) (unused : ∀ denom ∈ denoms, tally.mapUsed denom = 0) :
    (denoms.foldl (fun tally coin => idealPass coin listMints tally) tally).Fits held
      nValueTarget := by
  induction denoms generalizing tally with
  | nil => exact fits
  | cons denom denoms ih =>
    have here := inside mem_cons_self
    obtain ⟨fresh, distinctRest⟩ := nodup_cons.mp distinct
    have room : tally.mapUsed denom + (unusedMints listMints denom).length ≤ held denom := by
      rw [unused denom mem_cons_self, counts denom (mem_reverse.mp here), zero_add]
    obtain ⟨passFits, same⟩ := idealPass_fits below here fits room
    refine ih (fun coin mem => inside (mem_cons_of_mem _ mem)) distinctRest passFits ?_
    intro smaller mem
    rw [same smaller fun equal => fresh (equal ▸ mem)]
    exact unused smaller (mem_cons_of_mem _ mem)

theorem getIdealSpends_spec (nonneg : 0 ≤ nValueTarget) (counts : held.Counts listMints) :
    held.Within (getIdealSpends nValueTarget listMints).2 ∧
      ((getIdealSpends nValueTarget listMints).1 = true →
        DenomMap.total (getIdealSpends nValueTarget listMints).2 = nValueTarget) := by
  have fits : (denomList.reverse.foldl (fun tally coin => idealPass coin listMints tally)
      (CoinTally.start nValueTarget)).Fits held nValueTarget :=
    foldl_idealPass_fits below counts (List.Subset.refl _) coinage.nodup
      (.start counts.nonneg nonneg) fun _ _ => rfl
  refine ⟨fits.within, fun exact => ?_⟩
  have balance := fits.balance
  rwa [of_decide_eq_true exact, add_zero] at balance

end

theorem foldl_select (fits : FitsInt64 spends.nCoinsSpentValue) (asked : ℕ)
    (same : spends.mapOfDenomsUsed coin = asked)
    (enough : asked ≤ (unusedMints listMints coin).length) :
    listMints.foldl (select coin) spends =
      { vSelectedMints := spends.vSelectedMints ++ (unusedMints listMints coin).take asked
        nCoinsSpentValue := wrapInt64 (spends.nCoinsSpentValue + coin.toAmount * asked)
        mapOfDenomsUsed := update spends.mapOfDenomsUsed coin 0 } := by
  induction listMints generalizing spends asked with
  | nil =>
    obtain rfl := Nat.le_zero.mp enough
    have unchanged : update spends.mapOfDenomsUsed coin 0 = spends.mapOfDenomsUsed :=
      Function.update_eq_self_iff.mpr same.symm
    simp [unusedMints, unchanged, wrapInt64_of_fits fits]
  | cons mint listMints ih =>
    rw [List.foldl_cons]
    by_cases matching : mint.isUsed = false ∧ coin = mint.denom
    · rw [unusedMints_cons_of_pos matching.1 matching.2] at enough ⊢
      cases asked with
      | zero =>
        have skipped : spends.select coin mint = spends := by
          simp [select, same]
        rw [skipped, ih fits 0 same (Nat.zero_le _), List.take_zero, List.take_zero]
      | succ asked =>
        have chosen : spends.select coin mint =
            { vSelectedMints := spends.vSelectedMints ++ [mint]
              nCoinsSpentValue := addInt64 spends.nCoinsSpentValue coin.toAmount
              mapOfDenomsUsed := update spends.mapOfDenomsUsed coin asked } := by
          have left : spends.mapOfDenomsUsed coin - 1 = asked := by
            rw [same]
            push_cast
            ring
          have some : spends.mapOfDenomsUsed coin ≠ 0 := by omega
          rw [select, if_neg (by simp [matching.1]),
            if_pos (by simp [matching.2, matching.2 ▸ some]), left]
        rw [chosen, ih (fits_wrapInt64 _) asked (update_self ..) (Nat.le_of_succ_le_succ enough),
          List.take_succ_cons, Function.update_idem, List.append_assoc, List.singleton_append,
          addInt64, wrapInt64_wrap_add]
        congr 2
        push_cast
        ring
    · rw [unusedMints_cons_of_neg matching] at enough ⊢
      have skipped : spends.select coin mint = spends := by
        unfold select
        split_ifs with isUsed wanted
        · rfl
        · rw [and_eq_true, decide_eq_true_eq] at wanted
          exact absurd ⟨Bool.eq_false_iff.mpr isUsed, wanted.1⟩ matching
        · rfl
      rw [skipped]
      exact ih fits asked same enough

theorem selectDenom_ends (fits : FitsInt64 spends.nCoinsSpentValue) (asked : ℕ)
    (same : spends.mapOfDenomsUsed coin = asked)
    (enough : asked ≤ (unusedMints listMints coin).length) :
    Ends (fun final => final =
        { vSelectedMints := spends.vSelectedMints ++ (unusedMints listMints coin).take asked
          nCoinsSpentValue := wrapInt64 (spends.nCoinsSpentValue + coin.toAmount * asked)
          mapOfDenomsUsed := update spends.mapOfDenomsUsed coin 0 })
      fun fuel => MintSpends.selectDenom listMints fuel spends coin := by
  have pass := foldl_select fits asked same enough
  have found : (listMints.foldl (select coin) spends).mapOfDenomsUsed coin = 0 := by
    rw [pass]
    exact update_self ..
  -- Another round would need coins that are asked for and not found.
  refine (loop (fun state => state = spends)
    (fun state => state = listMints.foldl (select coin) spends) (fun _ => 0) ?_ ?_ ?_
    rfl).mono fun final holds => holds.1.trans pass
  · rintro state rfl
    rfl
  · rintro state rfl goesOn
    exact absurd found (of_decide_eq_true goesOn)
  · rintro state rfl goesOn
    exact absurd found (of_decide_eq_true goesOn)

/-- The mints selected so far are distinct unused mints of denominations that are done, and their
value is what the coins found were asked for. -/
structure MintSpends.Pays (listMints : List CMintMeta) (used : DenomMap)
    (rest : List CoinDenomination) (spends : MintSpends) : Prop where
  nodup : spends.vSelectedMints.Nodup
  unused : ∀ mint ∈ spends.vSelectedMints,
    mint ∈ listMints ∧ mint.isUsed = false ∧ mint.denom ∉ rest
  value : spends.nCoinsSpentValue = wrapInt64 (spends.vSelectedMints.map fun mint =>
    mint.denom.toAmount).sum
  amount : (spends.vSelectedMints.map fun mint => mint.denom.toAmount).sum +
    worth toAmount rest used = DenomMap.total used
  asked : ∀ denom ∈ rest, spends.mapOfDenomsUsed denom = used denom

theorem sum_toAmount_take (asked : ℕ) (enough : asked ≤ (unusedMints listMints coin).length) :
    (((unusedMints listMints coin).take asked).map fun mint => mint.denom.toAmount).sum =
      coin.toAmount * asked := by
  rw [List.sum_eq_card_nsmul _ coin.toAmount, List.length_map, List.length_take_of_le enough,
    nsmul_eq_mul, mul_comm]
  intro amount mem
  obtain ⟨mint, inside, rfl⟩ := List.mem_map.mp mem
  rw [(mem_unusedMints.mp (List.mem_of_mem_take inside)).2.2]

section

variable (distinct : listMints.Nodup)
include distinct

theorem MintSpends.Pays.step {rest : List CoinDenomination} (fresh : coin ∉ rest)
    (pays : spends.Pays listMints used (coin :: rest)) (asked : ℕ) (same : used coin = asked)
    (enough : asked ≤ (unusedMints listMints coin).length) :
    MintSpends.Pays listMints used rest
      { vSelectedMints := spends.vSelectedMints ++ (unusedMints listMints coin).take asked
        nCoinsSpentValue := wrapInt64 (spends.nCoinsSpentValue + coin.toAmount * asked)
        mapOfDenomsUsed := update spends.mapOfDenomsUsed coin 0 } where
  nodup := by
    refine List.nodup_append.mpr ⟨pays.nodup, ?_, ?_⟩
    · exact (distinct.filter _).sublist (List.take_sublist _ _)
    rintro mint before other later rfl
    have denom := (mem_unusedMints.mp (List.mem_of_mem_take later)).2.2
    exact (pays.unused mint before).2.2 (denom ▸ mem_cons_self)
  unused := by
    intro mint mem
    rcases List.mem_append.mp mem with before | later
    · obtain ⟨inside, isUnused, done⟩ := pays.unused mint before
      exact ⟨inside, isUnused, fun left => done (mem_cons_of_mem _ left)⟩
    · obtain ⟨inside, isUnused, rfl⟩ := mem_unusedMints.mp (List.mem_of_mem_take later)
      exact ⟨inside, isUnused, fresh⟩
  value := by
    rw [List.map_append, List.sum_append, sum_toAmount_take asked enough, pays.value,
      wrapInt64_wrap_add]
  amount := by
    rw [← pays.amount, worth_cons, same, List.map_append, List.sum_append,
      sum_toAmount_take asked enough]
    ring
  asked := by
    intro denom mem
    refine (update_of_ne ?_ ..).trans (pays.asked denom (mem_cons_of_mem _ mem))
    rintro rfl
    exact fresh mem

theorem getSpends_ends (counts : held.Counts listMints) (within : held.Within used) :
    Ends (MintSpends.Pays listMints used []) fun fuel => getSpends fuel listMints used := by
  refine (foldlM (fun rest spends => rest ⊆ denomList.reverse ∧ rest.Nodup ∧
    MintSpends.Pays listMints used rest spends) ?_ denomList.reverse
      ⟨List.Subset.refl _, coinage.nodup, ?_⟩).mono fun final holds => holds.2.2
  · rintro coin rest spends ⟨inside, noDup, pays⟩
    obtain ⟨fresh, noDupRest⟩ := nodup_cons.mp noDup
    have here := inside mem_cons_self
    obtain ⟨nonneg, atMost⟩ := within coin here
    obtain ⟨asked, same⟩ := Int.eq_ofNat_of_zero_le nonneg
    have enough : asked ≤ (unusedMints listMints coin).length := by
      rw [same, counts coin (mem_reverse.mp here)] at atMost
      exact Int.ofNat_le.mp atMost
    have fits : FitsInt64 spends.nCoinsSpentValue := pays.value ▸ fits_wrapInt64 _
    refine (selectDenom_ends fits asked ((pays.asked coin mem_cons_self).trans same) enough).mono ?_
    rintro final rfl
    exact ⟨fun denom mem => inside (mem_cons_of_mem _ mem), noDupRest,
      pays.step distinct fresh asked same enough⟩
  · exact ⟨List.nodup_nil, fun _ => nofun, rfl, zero_add _, fun _ _ => rfl⟩

omit distinct in
/-- Mints that pay for coins whose worth does not wrap are worth what the code says. -/
theorem MintSpends.Pays.value_eq (pays : spends.Pays listMints used [])
    (within : held.Within used) (fits : DenomMap.total used < 2 ^ 63) :
    spends.nCoinsSpentValue = DenomMap.total used ∧
      DenomMap.total used = (spends.vSelectedMints.map fun mint => mint.denom.toAmount).sum := by
  have exact := (add_zero _).symm.trans pays.amount
  have spent := within.total_nonneg
  exact ⟨by rw [pays.value, exact, wrapInt64_of_fits ⟨by omega, fits⟩], exact.symm⟩

section

variable (positive : 0 < nValueTarget) (below : nValueTarget < 2 ^ 63)
  (room : held.Room nValueTarget)
include positive below room

theorem selectWithChange_ends (counts : held.Counts listMints)
    (nSelectedValue nMaxNumberOfSpends : Int) (fMinimizeChange : Bool) (nNeededSpends : Int) :
    Ends (fun selected => selected.vSelectedMints ≠ [] →
        selected.IsSound listMints nValueTarget) fun fuel =>
      selectWithChange fuel nValueTarget nSelectedValue nMaxNumberOfSpends fMinimizeChange listMints
        held nNeededSpends := by
  refine bind (calculateChange_ends counts.nonneg positive below room _ _) ?_
  rintro change ⟨within, slack, counted⟩
  split_ifs with none
  · exact ret fun some => absurd rfl some
  · refine bind (getSpends_ends distinct counts within) fun spends pays => ret fun _ => ?_
    obtain ⟨total, exact⟩ := pays.value_eq within (room.total_lt within slack)
    -- Change is given, so there is something to give.
    have exceeds : 0 < DenomMap.total change.2 - nValueTarget := by
      by_contra small
      rw [changeNumber, max_eq_right (not_lt.mp small), changeCount_zero] at counted
      exact none counted
    refine ⟨pays.nodup, fun mint mem => ?_, total.trans exact, ?_, ?_⟩
    · obtain ⟨inside, isUnused, -⟩ := pays.unused mint mem
      exact ⟨inside, isUnused⟩
    · rw [total]
      exact (sub_pos.mp exceeds).le
    · rw [counted, changeNumber, max_eq_left exceeds.le, total]

end

end

/-- **Selection of mints.** For distinct mints, a map that counts the unused ones and a positive
target that what is spent cannot wrap around for, the selection ends, and what it selects are
distinct unused mints whose total is the selected value, at least the target, with change in the
returned number of coins. -/
theorem selectMintsFromList_sound (listMints : List CMintMeta) (distinct : listMints.Nodup)
    (held : DenomMap) (counts : held.Counts listMints)
    (nValueTarget nSelectedValue nMaxNumberOfSpends : Int) (fMinimizeChange : Bool)
    (positive : 0 < nValueTarget) (below : nValueTarget < 2 ^ 63) (room : held.Room nValueTarget) :
    Ends (fun selected => selected.vSelectedMints ≠ [] →
        selected.IsSound listMints nValueTarget) fun fuel =>
      selectMintsFromList fuel nValueTarget nSelectedValue nMaxNumberOfSpends fMinimizeChange
        listMints held := by
  obtain ⟨within, met⟩ := getIdealSpends_spec below positive.le counts
  simp only [selectMintsFromList]
  by_cases exact : (getIdealSpends nValueTarget listMints).1 = true
  · simp only [if_pos exact]
    refine bind (getSpends_ends distinct counts within) fun spends pays => ?_
    obtain ⟨value, same⟩ := pays.value_eq within ((met exact).trans_lt below)
    have total := value.trans (met exact)
    split_ifs
    · refine ret fun _ => ⟨pays.nodup, fun mint mem => ?_, value.trans same, total.ge, ?_⟩
      · obtain ⟨inside, isUnused, -⟩ := pays.unused mint mem
        exact ⟨inside, isUnused⟩
      · rw [total, sub_self, changeCount_zero]
    · exact selectWithChange_ends distinct positive below room counts _ _ _ _
  · simp only [if_neg exact]
    exact selectWithChange_ends distinct positive below room counts _ _ _ _

end Mints

def sampleMints : List CMintMeta :=
  [⟨1, 1, 1, 1, 2, .ten, 1, false, false, true, true⟩,
    ⟨2, 2, 2, 2, 2, .five, 2, true, false, true, true⟩,
    ⟨3, 3, 3, 3, 2, .ten, 3, false, false, true, true⟩]

/-- Twelve coins are spent with the mints. -/
theorem selectMintsFromList_sound_sample :
    Ends (fun selected => selected.vSelectedMints ≠ [] →
        selected.IsSound sampleMints (12 * COIN)) fun fuel =>
      selectMintsFromList fuel (12 * COIN) 0 4 true sampleMints
        fun denom => (unusedMints sampleMints denom).length :=
  selectMintsFromList_sound sampleMints (by decide) _ (fun _ _ => rfl) _ _ _ _ (by decide)
    (by decide) (.inr (by decide))

example : (selectMintsFromList 4 (12 * COIN) 0 4 true sampleMints fun denom =>
    (unusedMints sampleMints denom).length).map (fun selected =>
      (selected.vSelectedMints.length, selected.nSelectedValue, selected.nCoinsReturned)) =
        some (2, 20 * COIN, 4) := by
  decide +kernel

/-! ## Mints whose total wraps around -/

/-- Unused mints of the largest denomination. -/
def manyMints (number : ℕ) : List CMintMeta :=
  (List.range number).map fun n : ℕ => ⟨n, n, n, n, 2, .fiveThousand, n, false, false, true, true⟩

def largestHeld (count : Int) : DenomMap := update (fun _ => 0) .fiveThousand count

theorem largestHeld_self (count : Int) : largestHeld count .fiveThousand = count := update_self ..

theorem nodup_manyMints (number : ℕ) : (manyMints number).Nodup :=
  List.nodup_range.map fun _ _ same => Int.ofNat_inj.mp (congrArg CMintMeta.nHeight same)

theorem counts_manyMints (number : ℕ) : (largestHeld number).Counts (manyMints number) := by
  intro denom _
  by_cases same : denom = .fiveThousand
  · have all : unusedMints (manyMints number) denom = manyMints number := by
      refine List.filter_eq_self.mpr fun mint mem => ?_
      obtain ⟨n, -, rfl⟩ := List.mem_map.mp mem
      simp [same]
    rw [all, manyMints, List.length_map, List.length_range, same]
    exact update_self ..
  · have none : unusedMints (manyMints number) denom = [] := by
      refine List.filter_eq_nil_iff.mpr fun mint mem => ?_
      obtain ⟨n, -, rfl⟩ := List.mem_map.mp mem
      simp [same]
    rw [none]
    exact update_of_ne same ..

/-- Coins among the largest ones are as many as their worth and their number say. -/
theorem eq_of_within_largestHeld {count : Int} {used : DenomMap}
    (within : (largestHeld count).Within used) :
    DenomMap.total used = 5000 * COIN * used .fiveThousand ∧
      DenomMap.coins used = used .fiveThousand ∧ 0 ≤ used .fiveThousand ∧
        used .fiveThousand ≤ count := by
  have zero : ∀ denom ∈ denomList.reverse, denom ≠ .fiveThousand → used denom = 0 := by
    intro denom mem other
    obtain ⟨nonneg, none⟩ := within denom mem
    rw [largestHeld, update_of_ne other] at none
    exact le_antisymm none nonneg
  obtain ⟨nonneg, most⟩ := within .fiveThousand (by decide)
  rw [largestHeld, update_self] at most
  simp [DenomMap.total, DenomMap.coins, worth, denomList, zero, toAmount, toInt, nonneg, most]

/-- The tally after some of the largest coins have been taken for the largest target. -/
def largestTally (count : ℕ) : CoinTally where
  mapUsed := largestHeld count
  nRemainingValue := 2 ^ 63 - 1 - 5000 * COIN * count
  amountUsed := wrapInt64 (5000 * COIN * count)
  nCoinCount := wrapInt count

theorem take_largestTally {count : ℕ} (few : count < 18446745) :
    (largestTally count).take .fiveThousand = largestTally (count + 1) := by
  have amount : CoinDenomination.fiveThousand.toAmount = 5000 * COIN := by decide
  have coins : update (largestHeld count) .fiveThousand (largestHeld count .fiveThousand + 1) =
      largestHeld (count + 1 : ℕ) := by
    rw [largestHeld, largestHeld, update_self, Function.update_idem]
    rfl
  have value : (5000 * COIN * (count + 1 : ℕ) : Int) = 5000 * COIN * count + 5000 * COIN := by
    push_cast
    ring
  have left : subInt64 (2 ^ 63 - 1 - 5000 * COIN * count) (5000 * COIN) =
      2 ^ 63 - 1 - 5000 * COIN * (count + 1 : ℕ) := by
    rw [value, subInt64, sub_sub]
    exact wrapInt64_of_fits ⟨by rw [COIN]; omega, by rw [COIN]; omega⟩
  have number : wrapInt (wrapInt count + 1) = wrapInt (count + 1 : ℕ) := Int.bmod_add_bmod
  rw [CoinTally.take, amount]
  simp only [largestTally, coins, left, number, addInt64, wrapInt64_wrap_add, value]

/-- All coins are taken, and then more than the target is spent. -/
theorem exceed_largestHeld :
    Ends (fun tally => tally = largestTally 18446745) fun fuel =>
      exceed (largestHeld 18446745) fuel denomList.reverse (.start (2 ^ 63 - 1)) := by
  have held := largestHeld_self 18446745
  have start : CoinTally.start (2 ^ 63 - 1) = largestTally 0 := by
    simp [CoinTally.start, largestTally, largestHeld, wrapInt64, wrapInt]
  -- A coin is taken as long as one is left, which is as long as the target is not met.
  have again : ∀ count ≤ 18446745, ((0 < (largestTally count).nRemainingValue &&
      (largestTally count).mapUsed .fiveThousand < largestHeld 18446745 .fiveThousand) = true ↔
        count < 18446745) := by
    intro count most
    have used : (largestTally count).mapUsed .fiveThousand = count := largestHeld_self count
    have left : (largestTally count).nRemainingValue = 2 ^ 63 - 1 - 500000000000 * count := rfl
    rw [and_eq_true, decide_eq_true_eq, decide_eq_true_eq, used, held, left]
    omega
  simp only [denomList, List.reverse_cons, List.reverse_nil, List.nil_append, List.cons_append,
    exceed, start]
  refine bind (loop (fun tally => ∃ count < 18446745, tally = largestTally count)
    (fun tally => ∃ count ≤ 18446745, tally = largestTally count)
    (fun tally => 18446745 - (tally.mapUsed .fiveThousand).toNat) ?_ ?_ ?_
    ⟨0, by decide, rfl⟩) ?_
  · rintro tally ⟨count, few, rfl⟩
    have able := (again count few.le).mpr few
    rw [and_eq_true, decide_eq_true_eq] at able
    rw [if_pos ⟨by rw [held]; decide, able.1⟩, take_largestTally few]
    exact ⟨count + 1, few, rfl⟩
  · rintro tally ⟨count, most, rfl⟩ goesOn
    exact ⟨count, (again count most).mp goesOn, rfl⟩
  · rintro tally ⟨count, few, rfl⟩ -
    have able := (again count few.le).mpr few
    rw [and_eq_true, decide_eq_true_eq] at able
    have used : (largestTally count).mapUsed .fiveThousand = count := largestHeld_self count
    rw [if_pos ⟨by rw [held]; decide, able.1⟩, take_mapUsed_self, used]
    omega
  · rintro tally ⟨⟨count, most, rfl⟩, done⟩
    obtain rfl : count = 18446745 := by
      by_contra other
      rw [(again count most).mpr (lt_of_le_of_ne most other)] at done
      cases done
    exact ret rfl

theorem within_largestHeld : (largestHeld 18446745).Within (largestHeld 18446745) :=
  fun denom mem => ⟨(counts_manyMints 18446745).nonneg denom mem, le_rfl⟩

/-- No amount below the target is found with less change, so all coins are spent. -/
theorem calculateChange_largestHeld :
    Ends (fun change => change = (10, largestHeld 18446745)) fun fuel =>
      calculateChange fuel (-1) true (2 ^ 63 - 1) (largestHeld 18446745) := by
  have nonneg := (counts_manyMints 18446745).nonneg
  refine bind exceed_largestHeld ?_
  rintro tally rfl
  refine bind (getChange_ends (by decide)) fun mapChange counted => ?_
  have ten : getNumberOfCoinsUsed mapChange = 10 :=
    (getNumberOfCoinsUsed_change (by decide) counted).trans (by decide)
  refine bind (minimizeChange_ends nonneg (by decide) (by decide) _ _ _) ?_
  rintro smaller (rfl | ⟨few, within, -⟩)
  · exact ret (by rw [ten]; rfl)
  · obtain ⟨-, coins, least, most⟩ := eq_of_within_largestHeld within
    rw [getNumberOfCoinsUsed_eq, coins, wrapInt_of_lt least (by omega)] at few
    omega

/-- The mints are worth more than an `int64_t` holds, and all of them are selected for the largest
target: their total comes out negative. -/
theorem selectMintsFromList_wraps :
    Ends (fun selected => selected.vSelectedMints ≠ [] ∧
        selected.nSelectedValue = -9223371573709551616) fun fuel =>
      selectMintsFromList fuel (2 ^ 63 - 1) 0 (-1) true (manyMints 18446745)
        (largestHeld 18446745) := by
  have counts : (largestHeld 18446745).Counts (manyMints 18446745) := counts_manyMints 18446745
  obtain ⟨within, met⟩ := getIdealSpends_spec (by decide : (2 ^ 63 - 1 : Int) < 2 ^ 63)
    (by decide) counts
  have inexact : ¬(getIdealSpends (2 ^ 63 - 1) (manyMints 18446745)).1 = true := by
    intro exact
    have total := (eq_of_within_largestHeld within).1.symm.trans (met exact)
    rw [COIN] at total
    omega
  simp only [selectMintsFromList, if_neg inexact, selectWithChange]
  refine bind calculateChange_largestHeld ?_
  rintro change rfl
  refine bind (getSpends_ends (nodup_manyMints _) counts within_largestHeld)
    fun spends pays => ret ?_
  have total : (spends.vSelectedMints.map fun mint => mint.denom.toAmount).sum =
      9223372500000000000 := by
    have worth := (eq_of_within_largestHeld within_largestHeld).1
    exact ((add_zero _).symm.trans pays.amount).trans worth
  refine ⟨fun none => ?_, (congrArg wrapInt64 total ▸ pays.value).trans (by decide)⟩
  rw [show spends.vSelectedMints = [] from none] at total
  cases total

/-- **An amount that wraps.** Without room for what is spent the selected value need not be the
total of the mints. -/
theorem not_selectMintsFromList_sound :
    ¬Ends (fun selected => selected.vSelectedMints ≠ [] →
        selected.IsSound (manyMints 18446745) (2 ^ 63 - 1)) fun fuel =>
      selectMintsFromList fuel (2 ^ 63 - 1) 0 (-1) true (manyMints 18446745)
        (largestHeld 18446745) := by
  intro sound
  obtain ⟨selected, isSound, enough, returns⟩ := sound
  obtain ⟨same, ⟨some, value⟩, more, again⟩ := selectMintsFromList_wraps
  have equal : selected = same := Option.some_inj.mp
    ((returns _ (le_max_left enough more)).symm.trans (again _ (le_max_right enough more)))
  subst equal
  have least := (isSound some).enough
  omega

end DogeCash
