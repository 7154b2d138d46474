import DogeCash.Foundation.Checked
import DogeCash.Foundation.FixedWidth
import DogeCash.Foundation.Selections
import DogeCash.Primitives.Transaction

/-! # Selecting coins to spend

`SelectCoinsMinConf` looks for outputs of the wallet that cover a target. It first tries the
outputs whose values are no denominations, then all of them. An output of exactly the target, all
outputs that are smaller than the target and a cent, or the smallest larger one may do. Otherwise
`ApproximateBestSubset` tries random subsets of the smaller ones. The totals, and the target and a
cent, are sums of 64 bits.
-/

namespace DogeCash

def CENT : Int := 1000000

/-- `std::numeric_limits<CAmount>::max()` -/
def maxAmount : Int := 9223372036854775807

/-- `pair<const CWalletTx*, unsigned int>`: the wallet has one object for a transaction. -/
abbrev WalletOutput := CTransaction × ℕ

/-- `COutput`, an output of a transaction that the wallet holds. `CheckTransaction` has refused
values above the maximum. -/
structure COutput where
  tx : CTransaction
  i : ℕ
  nDepth : Int
  fSpendable : Bool
  inside : i < tx.vout.length
  inRange : ∀ out ∈ tx.vout, out.nValue ≤ 21000000 * COIN

namespace COutput

variable (output : COutput)

def nValue : Int := (output.tx.vout.get ⟨output.i, output.inside⟩).nValue

def coin : Int × WalletOutput := (output.nValue, output.tx, output.i)

end COutput

/-- What the selection takes from the wallet, the shuffle, the sort and the generator of random
bits. A bit is named by the search, the round and the coin it is drawn for. -/
structure CoinSelectionEnv where
  obfuScationDenominations : List Int
  /-- `IsFromMe(ISMINE_ALL)` -/
  isFromMe : CTransaction → Bool
  /-- `random_shuffle` -/
  shuffle : List COutput → List COutput
  sort : {α : Type} → (α → α → Bool) → List α → List α
  randbool : ℕ → ℕ → ℕ → Bool
  shuffle_perm : ∀ outputs, (shuffle outputs).Perm outputs
  sort_perm : ∀ {α : Type} (less : α → α → Bool) (items : List α), (sort less items).Perm items
  sort_sorted : ∀ {α : Type} (less : α → α → Bool),
    (∀ first second, less first second = true → less second first = false) →
    (∀ first second third, less second first = false → less third second = false →
      less third first = false) →
    ∀ items, (sort less items).Pairwise fun first second => less second first = false

/-- The subset that `ApproximateBestSubset` is trying, and the best one so far. -/
structure SubsetSearch where
  vfIncluded : List Bool
  nTotal : Int
  fReachedTarget : Bool
  vfBest : List Bool
  nBest : Int

namespace SubsetSearch

/-- A coin is included. It is taken out again when the target is reached. -/
def includeCoin (nTargetValue : Int) (i : ℕ) (value : Int) (search : SubsetSearch) : SubsetSearch :=
  let nTotal := addInt64 search.nTotal value
  let vfIncluded := search.vfIncluded.set i true
  if nTargetValue ≤ nTotal then
    { vfIncluded := vfIncluded.set i false
      nTotal := subInt64 nTotal value
      fReachedTarget := true
      vfBest := if nTotal < search.nBest then vfIncluded else search.vfBest
      nBest := if nTotal < search.nBest then nTotal else search.nBest }
  else { search with vfIncluded, nTotal }

/-- Whether a coin is tried: at random in the first pass, and in the second if it is not
included. -/
def tries (nPass : ℕ) (randbool : ℕ → Bool) (i : ℕ) (search : SubsetSearch) : Bool :=
  if nPass = 0 then randbool i else !(search.vfIncluded[i]?.getD false)

/-- A pass over the coins from a position on. -/
def pass (nTargetValue : Int) (nPass : ℕ) (randbool : ℕ → Bool) :
    ℕ → List (Int × WalletOutput) → SubsetSearch → SubsetSearch
  | _, [], search => search
  | i, coin :: rest, search =>
    pass nTargetValue nPass randbool (i + 1) rest
      (if search.tries nPass randbool i then search.includeCoin nTargetValue i coin.1
      else search)

end SubsetSearch

section subset

variable (vValue : List (Int × WalletOutput)) (nTargetValue : Int)

/-- A round of `ApproximateBestSubset`, from the best subset so far and its total. -/
def searchRound (randbool : ℕ → Bool) (best : List Bool × Int) : List Bool × Int :=
  let first : SubsetSearch := .pass nTargetValue 0 randbool 0 vValue
    ⟨List.replicate vValue.length false, 0, false, best.1, best.2⟩
  let search := if first.fReachedTarget then first
    else .pass nTargetValue 1 randbool 0 vValue first
  (search.vfBest, search.nBest)

/-- The rounds that are left, unless the target is met. -/
def searchRounds (randbool : ℕ → ℕ → Bool) : ℕ → ℕ → List Bool × Int → List Bool × Int
  | 0, _, best => best
  | left + 1, nRep, best =>
    if best.2 = nTargetValue then best
    else searchRounds randbool left (nRep + 1)
      (searchRound vValue nTargetValue (randbool nRep) best)

def approximateBestSubset (nTotalLower : Int) (randbool : ℕ → ℕ → Bool) (iterations : ℕ) :
    List Bool × Int :=
  searchRounds vValue nTargetValue randbool iterations 0
    (List.replicate vValue.length true, nTotalLower)

end subset

/-- What `SelectCoinsMinConf` returns. -/
structure CoinSelection where
  found : Bool
  setCoinsRet : Finset WalletOutput := ∅
  nValueRet : Int := 0

namespace CoinSelection

def insertCoin (selection : CoinSelection) (coin : Int × WalletOutput) : CoinSelection :=
  { selection with
    setCoinsRet := insert coin.2 selection.setCoinsRet
    nValueRet := addInt64 selection.nValueRet coin.1 }

def of (coins : List (Int × WalletOutput)) : CoinSelection := coins.foldl insertCoin ⟨true, ∅, 0⟩

end CoinSelection

/-- The coins seen in a pass: the smallest that is larger than the target and a cent, if there is
one, and the smaller ones. -/
structure CoinScan where
  coinLowestLarger : Int × Option WalletOutput := (maxAmount, none)
  vValue : List (Int × WalletOutput) := []
  nTotalLower : Int := 0

namespace CoinSelectionEnv

variable (env : CoinSelectionEnv)

def isDenominatedAmount (nInputAmount : Int) : Bool :=
  env.obfuScationDenominations.any fun d => nInputAmount = d

/-- `less_then_denom` -/
def lessThenDenom (out1 out2 : COutput) : Bool :=
  !env.isDenominatedAmount out1.nValue && env.isDenominatedAmount out2.nValue

def compareValueOnly (t1 t2 : Int × WalletOutput) : Bool := t1.1 < t2.1

section select

variable (nTargetValue nConfMine nConfTheirs : Int)

/-- An output is looked at. One of exactly the target ends the search, as the error of the
loop. -/
def scanOutput (tryDenom : ℕ) (scan : CoinScan) (output : COutput) :
    Except (Int × WalletOutput) CoinScan :=
  if !output.fSpendable then .ok scan
  else if output.nDepth < (if env.isFromMe output.tx then nConfMine else nConfTheirs) then .ok scan
  else
    let n := output.nValue
    if tryDenom = 0 && env.isDenominatedAmount n then .ok scan
    else
      let coin := output.coin
      if n = nTargetValue then .error coin
      else if n < addInt64 nTargetValue CENT then
        .ok { scan with vValue := scan.vValue ++ [coin], nTotalLower := addInt64 scan.nTotalLower n }
      else if n < scan.coinLowestLarger.1 then
        .ok { scan with coinLowestLarger := (coin.1, some coin.2) }
      else .ok scan

/-- The subset that is found, with its total. Without one of exactly the target the search is
repeated for a cent more. -/
def bestSubset (vValue : List (Int × WalletOutput)) (nTotalLower : Int) : List Bool × Int :=
  let best := approximateBestSubset vValue nTargetValue nTotalLower (env.randbool 0) 1000
  if best.2 ≠ nTargetValue ∧ addInt64 nTargetValue CENT ≤ nTotalLower then
    approximateBestSubset vValue (addInt64 nTargetValue CENT) nTotalLower (env.randbool 1) 1000
  else best

/-- The larger coin or the best subset, when the smaller coins are worth more than the target. -/
def solve (scan : CoinScan) : CoinSelection :=
  let vValue := (env.sort compareValueOnly scan.vValue.reverse).reverse
  let (vfBest, nBest) := env.bestSubset nTargetValue vValue scan.nTotalLower
  match scan.coinLowestLarger with
  | (value, some coin) =>
    if (nBest ≠ nTargetValue ∧ nBest < addInt64 nTargetValue CENT) ∨ value ≤ nBest then
      .of [(value, coin)]
    else .of (selected vfBest vValue)
  | (_, none) => .of (selected vfBest vValue)

/-- A pass over the outputs, and what comes next if it finds nothing. -/
def selectPass (tryDenom : ℕ) (coinLowestLarger : Int × Option WalletOutput)
    (vCoins : List COutput) (next : Int × Option WalletOutput → CoinSelection) : CoinSelection :=
  match vCoins.foldlM (env.scanOutput nTargetValue nConfMine nConfTheirs tryDenom)
      { coinLowestLarger } with
  | .error coin => .of [coin]
  | .ok scan =>
    if scan.nTotalLower = nTargetValue then .of scan.vValue
    else if scan.nTotalLower < nTargetValue then
      match scan.coinLowestLarger with
      | (value, some coin) => .of [(value, coin)]
      | (value, none) => next (value, none)
    else env.solve nTargetValue scan

def selectCoinsMinConf (vCoins : List COutput) : CoinSelection :=
  let vCoins := env.sort env.lessThenDenom (env.shuffle vCoins)
  env.selectPass nTargetValue nConfMine nConfTheirs 0 (maxAmount, none) vCoins fun larger =>
    env.selectPass nTargetValue nConfMine nConfTheirs 1 larger vCoins fun _ => { found := false }

end select

end CoinSelectionEnv

end DogeCash
