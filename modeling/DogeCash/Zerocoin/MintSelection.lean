import DogeCash.Foundation.FixedWidth
import DogeCash.Foundation.Fuel
import DogeCash.Zerocoin.Supply

/-! # The selection of mints to spend

A wallet spends zerocoin mints that add up to a target, or to more, with change. First the mints
are taken from the largest denomination on; where this does not meet the target exactly, or needs
too many mints, `calculateChange` looks for coins whose change is few coins again. Its loops run
until there is nothing to take, and the loop of `getSpends` until all coins that were asked for
are found; each is given fuel. Amounts and counts of coins wrap around as a `CAmount` and an `int`
do. A number of coins in a map is no more than a list of mints or an amount holds.
-/

namespace DogeCash

open CoinDenomination

structure CMintMeta where
  nHeight : Int
  hashSerial : UInt256
  hashPubcoin : UInt256
  hashStake : UInt256
  nVersion : UInt8
  denom : CoinDenomination
  txid : UInt256
  isUsed : Bool
  isArchived : Bool
  isDeterministic : Bool
  isSeedCorrect : Bool
  deriving DecidableEq

/-- A map from `zerocoinDenomList` to numbers of coins. -/
abbrev DenomMap := CoinDenomination → Int

def getNumberOfCoinsUsed (mapChange : DenomMap) : Int :=
  denomList.foldl (fun nChangeCount denom => wrapInt (nChangeCount + mapChange denom)) 0

def getMaxDenomHeld (mapCoinsHeld : DenomMap) : CoinDenomination :=
  (denomList.reverse.find? fun coin => mapCoinsHeld coin ≠ 0).getD .error

def getNextLowerDenomHeld (this_denom : CoinDenomination) (mapCoinsHeld : DenomMap) :
    CoinDenomination :=
  (denomList.reverse.find? fun denom =>
    denom.toInt < this_denom.toInt && mapCoinsHeld denom ≠ 0).getD .error

/-- The variables of the loops that take coins. -/
structure CoinTally where
  mapUsed : DenomMap
  nRemainingValue : Int
  amountUsed : Int
  nCoinCount : Int

namespace CoinTally

def start (nValueTarget : Int) : CoinTally := ⟨fun _ => 0, nValueTarget, 0, 0⟩

def take (coin : CoinDenomination) (tally : CoinTally) : CoinTally where
  mapUsed := Function.update tally.mapUsed coin (tally.mapUsed coin + 1)
  nRemainingValue := subInt64 tally.nRemainingValue coin.toAmount
  amountUsed := addInt64 tally.amountUsed coin.toAmount
  nCoinCount := wrapInt (tally.nCoinCount + 1)

section

variable {tally : CoinTally} {coin denom : CoinDenomination}

@[simp]
theorem take_mapUsed_self : (tally.take coin).mapUsed coin = tally.mapUsed coin + 1 :=
  Function.update_self ..

theorem take_mapUsed_of_ne (other : denom ≠ coin) :
    (tally.take coin).mapUsed denom = tally.mapUsed denom :=
  Function.update_of_ne other ..

end

/-- The loop with `do` and `while` over one denomination: take a coin as long as one can be
taken. -/
def takeCoins (can : CoinTally → Bool) (coin : CoinDenomination) (fuel : ℕ) (tally : CoinTally) :
    Option CoinTally :=
  doWhile (fun tally => if can tally then tally.take coin else tally) can fuel tally

end CoinTally

def canSpend (mapOfDenomsHeld : DenomMap) (coin : CoinDenomination) (tally : CoinTally) : Bool :=
  coin.toAmount ≤ tally.nRemainingValue && tally.mapUsed coin < mapOfDenomsHeld coin

def getSpendCoins (fuel : ℕ) (nValueTarget : Int) (mapOfDenomsHeld : DenomMap) : Option DenomMap :=
  (denomList.reverse.foldlM
    (fun tally coin => CoinTally.takeCoins (canSpend mapOfDenomsHeld coin) coin fuel tally)
    (.start nValueTarget)).map CoinTally.mapUsed

def canChange (coin : CoinDenomination) (tally : CoinTally) : Bool :=
  coin.toAmount ≤ tally.nRemainingValue

def getChange (fuel : ℕ) (nValueTarget : Int) : Option DenomMap :=
  (denomList.reverse.foldlM
    (fun tally coin => CoinTally.takeCoins (canChange coin) coin fuel tally)
    (.start nValueTarget)).map CoinTally.mapUsed

/-- The loop of `getIdealSpends` over the mints, for one denomination. -/
def idealPass (coin : CoinDenomination) : List CMintMeta → CoinTally → CoinTally
  | [], tally => tally
  | mint :: listMints, tally =>
    if mint.isUsed then idealPass coin listMints tally
    else
      let tally :=
        if coin.toAmount ≤ tally.nRemainingValue && coin = mint.denom then tally.take coin
        else tally
      if tally.nRemainingValue < coin.toAmount then tally else idealPass coin listMints tally

/-- `getIdealSpends`, which does not look at the map of the denominations held. -/
def getIdealSpends (nValueTarget : Int) (listMints : List CMintMeta) : Bool × DenomMap :=
  let tally := denomList.reverse.foldl (fun tally coin => idealPass coin listMints tally)
    (CoinTally.start nValueTarget)
  (tally.nRemainingValue = 0, tally.mapUsed)

/-- The variables of `getSpends`. -/
structure MintSpends where
  vSelectedMints : List CMintMeta
  nCoinsSpentValue : Int
  mapOfDenomsUsed : DenomMap

namespace MintSpends

/-- Select a mint of a denomination if another coin of it was asked for. -/
def select (coin : CoinDenomination) (spends : MintSpends) (mint : CMintMeta) : MintSpends :=
  if mint.isUsed then spends
  else if coin = mint.denom && spends.mapOfDenomsUsed coin ≠ 0 then
    { vSelectedMints := spends.vSelectedMints ++ [mint]
      nCoinsSpentValue := addInt64 spends.nCoinsSpentValue coin.toAmount
      mapOfDenomsUsed :=
        Function.update spends.mapOfDenomsUsed coin (spends.mapOfDenomsUsed coin - 1) }
  else spends

def selectDenom (listMints : List CMintMeta) (fuel : ℕ) (spends : MintSpends)
    (coin : CoinDenomination) : Option MintSpends :=
  doWhile (fun spends => listMints.foldl (select coin) spends)
    (fun spends => spends.mapOfDenomsUsed coin ≠ 0) fuel spends

end MintSpends

def getSpends (fuel : ℕ) (listMints : List CMintMeta) (mapOfDenomsUsed : DenomMap) :
    Option MintSpends :=
  denomList.reverse.foldlM (MintSpends.selectDenom listMints fuel) ⟨[], 0, mapOfDenomsUsed⟩

def canApproach (mapOfDenomsHeld : DenomMap) (denom : CoinDenomination) (tally : CoinTally) :
    Bool :=
  denom.toAmount < tally.nRemainingValue && tally.mapUsed denom < mapOfDenomsHeld denom

/-- The first stage of `minimizeChange`: stay below the target. -/
def approach (mapOfDenomsHeld : DenomMap) (nextToMaxDenom : CoinDenomination) (fuel : ℕ)
    (tally : CoinTally) (denom : CoinDenomination) : Option CoinTally :=
  if denom.toInt ≤ nextToMaxDenom.toInt then
    CoinTally.takeCoins (canApproach mapOfDenomsHeld denom) denom fuel tally
  else some tally

/-- The second stage of `minimizeChange`: from the smallest denomination on, take a coin that is
larger than what remains. -/
def fillUp (mapOfDenomsHeld : DenomMap) : List CoinDenomination → CoinTally → CoinTally
  | [], tally => tally
  | denom :: denoms, tally =>
    let tally :=
      if tally.nRemainingValue < denom.toAmount && tally.mapUsed denom < mapOfDenomsHeld denom
      then tally.take denom else tally
    if tally.nRemainingValue < 0 then tally else fillUp mapOfDenomsHeld denoms tally

/-- The third stage of `minimizeChange`: a coin that is both spent and change is neither. -/
def dropOverlap (fuel : ℕ) (state : CoinTally × DenomMap) (denom : CoinDenomination) :
    Option (CoinTally × DenomMap) :=
  let overlaps (state : CoinTally × DenomMap) : Bool :=
    state.2 denom ≠ 0 && state.1.mapUsed denom ≠ 0
  doWhile
    (fun state =>
      if overlaps state then
        ({ state.1 with
            mapUsed := Function.update state.1.mapUsed denom (state.1.mapUsed denom - 1)
            amountUsed := subInt64 state.1.amountUsed denom.toAmount
            nCoinCount := wrapInt (state.1.nCoinCount - 1) },
          Function.update state.2 denom (state.2 denom - 1))
      else state)
    overlaps fuel state

/-- `minimizeChange`, with the number of coins in the change and the coins that are spent. -/
def minimizeChange (fuel : ℕ) (nMaxNumberOfSpends nChangeCount : Int)
    (nextToMaxDenom : CoinDenomination) (nValueTarget : Int)
    (mapOfDenomsHeld mapOfDenomsUsed : DenomMap) : Option (Int × DenomMap) := do
  let below ← denomList.reverse.foldlM (approach mapOfDenomsHeld nextToMaxDenom fuel)
    (CoinTally.start nValueTarget)
  let filled := fillUp mapOfDenomsHeld denomList below
  let mapAltChange ← getChange fuel (subInt64 filled.amountUsed nValueTarget)
  let separate ← denomList.foldlM (dropOverlap fuel) (filled, mapAltChange)
  let mapSpent ← getSpendCoins fuel separate.1.amountUsed mapOfDenomsHeld
  let mapAltChange ← getChange fuel (subInt64 separate.1.amountUsed nValueTarget)
  let altChangeCount := getNumberOfCoinsUsed mapAltChange
  if altChangeCount < nChangeCount ∧ getNumberOfCoinsUsed mapSpent ≤ nMaxNumberOfSpends then
    some (altChangeCount, mapSpent)
  else some (nChangeCount, mapOfDenomsUsed)

/-- Coins are taken of every denomination until nothing remains, from the largest on. -/
def exceed (mapOfDenomsHeld : DenomMap) (fuel : ℕ) :
    List CoinDenomination → CoinTally → Option CoinTally
  | [], tally => some tally
  | denom :: denoms, tally => do
    let tally ← doWhile
      (fun tally =>
        if mapOfDenomsHeld denom ≠ 0 ∧ 0 < tally.nRemainingValue then tally.take denom else tally)
      (fun tally => 0 < tally.nRemainingValue && tally.mapUsed denom < mapOfDenomsHeld denom)
      fuel tally
    if tally.nRemainingValue < 0 then some tally else exceed mapOfDenomsHeld fuel denoms tally

/-- The branch of `calculateChange` that spends one coin. -/
def changeOfOne (fuel : ℕ) (nMaxNumberOfSpends : Int) (fMinimizeChange : Bool) (nValueTarget : Int)
    (mapOfDenomsHeld : DenomMap) (minDenomOverTarget : CoinDenomination) :
    Option (Int × DenomMap) := do
  let one : DenomMap := Function.update (fun _ => 0) minDenomOverTarget 1
  let mapChange ← getChange fuel (subInt64 minDenomOverTarget.toAmount nValueTarget)
  let nChangeCount := getNumberOfCoinsUsed mapChange
  if fMinimizeChange then
    let nextToMaxDenom := getNextLowerDenomHeld minDenomOverTarget mapOfDenomsHeld
    let smaller ← minimizeChange fuel nMaxNumberOfSpends nChangeCount nextToMaxDenom nValueTarget
      mapOfDenomsHeld one
    if smaller.1 < nChangeCount then some smaller else some (nChangeCount, one)
  else some (nChangeCount, one)

/-- The branch of `calculateChange` for a target that no coin held exceeds. -/
def changeOfMany (fuel : ℕ) (nMaxNumberOfSpends : Int) (fMinimizeChange : Bool) (nValueTarget : Int)
    (mapOfDenomsHeld : DenomMap) : Option (Int × DenomMap) := do
  let tally ← exceed mapOfDenomsHeld fuel denomList.reverse (CoinTally.start nValueTarget)
  let mapChange ← getChange fuel (subInt64 tally.amountUsed nValueTarget)
  let nMaxChangeCount := getNumberOfCoinsUsed mapChange
  let smaller ← minimizeChange fuel nMaxNumberOfSpends nMaxChangeCount
    (getMaxDenomHeld mapOfDenomsHeld) nValueTarget mapOfDenomsHeld tally.mapUsed
  if !fMinimizeChange && tally.nCoinCount < getNumberOfCoinsUsed smaller.2 then
    some (nMaxChangeCount, tally.mapUsed)
  else some smaller

/-- `calculateChange`, with the number of coins in the change and the coins that are spent. -/
def calculateChange (fuel : ℕ) (nMaxNumberOfSpends : Int) (fMinimizeChange : Bool)
    (nValueTarget : Int) (mapOfDenomsHeld : DenomMap) : Option (Int × DenomMap) :=
  match denomList.find? fun denom => nValueTarget < denom.toAmount && mapOfDenomsHeld denom ≠ 0 with
  | some minDenomOverTarget =>
    changeOfOne fuel nMaxNumberOfSpends fMinimizeChange nValueTarget mapOfDenomsHeld
      minDenomOverTarget
  | none => changeOfMany fuel nMaxNumberOfSpends fMinimizeChange nValueTarget mapOfDenomsHeld

/-- What `SelectMintsFromList` returns, by value and by reference. -/
structure SelectedMints where
  vSelectedMints : List CMintMeta
  nSelectedValue : Int
  nCoinsReturned : Int
  nNeededSpends : Int

/-- The part of `SelectMintsFromList` that spends more than the target. -/
def selectWithChange (fuel : ℕ) (nValueTarget nSelectedValue nMaxNumberOfSpends : Int)
    (fMinimizeChange : Bool) (listMints : List CMintMeta) (mapOfDenomsHeld : DenomMap)
    (nNeededSpends : Int) : Option SelectedMints := do
  let change ← calculateChange fuel nMaxNumberOfSpends fMinimizeChange nValueTarget mapOfDenomsHeld
  if change.1 = 0 then some ⟨[], nSelectedValue, 0, nNeededSpends⟩
  else
    let spends ← getSpends fuel listMints change.2
    some ⟨spends.vSelectedMints, spends.nCoinsSpentValue, change.1, nNeededSpends⟩

/-- `SelectMintsFromList`. The limit is compared as a `size_t`. -/
def selectMintsFromList (fuel : ℕ) (nValueTarget nSelectedValue nMaxNumberOfSpends : Int)
    (fMinimizeChange : Bool) (listMints : List CMintMeta) (mapOfDenomsHeld : DenomMap) :
    Option SelectedMints :=
  let ideal := getIdealSpends nValueTarget listMints
  if ideal.1 then do
    let spends ← getSpends fuel listMints ideal.2
    if (spends.vSelectedMints.length : Int) ≤ nMaxNumberOfSpends % 2 ^ 64 then
      some ⟨spends.vSelectedMints, spends.nCoinsSpentValue, 0, 0⟩
    else
      selectWithChange fuel nValueTarget spends.nCoinsSpentValue nMaxNumberOfSpends fMinimizeChange
        listMints mapOfDenomsHeld (wrapInt spends.vSelectedMints.length)
  else
    selectWithChange fuel nValueTarget nSelectedValue nMaxNumberOfSpends fMinimizeChange listMints
      mapOfDenomsHeld 0

end DogeCash
