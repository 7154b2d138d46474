import DogeCash.Primitives.Transaction

/-! # Zerocoin spends and mints

What block validation sees of a zerocoin spend or mint: the values of its fields
and the outcome of its cryptographic checks. How a spend is decoded and verified
is the zerocoin library's own affair; `ZerocoinEnv` carries it together with the
contents of the zerocoin database.
-/

namespace DogeCash

inductive CoinDenomination where
  | error | one | five | ten | fifty | oneHundred | fiveHundred | oneThousand | fiveThousand
  deriving DecidableEq

namespace CoinDenomination

/-- `ZerocoinDenominationToInt`, also the value of the enumerator. -/
def toInt : CoinDenomination → Int
  | error => 0
  | one => 1
  | five => 5
  | ten => 10
  | fifty => 50
  | oneHundred => 100
  | fiveHundred => 500
  | oneThousand => 1000
  | fiveThousand => 5000

/-- `ZerocoinDenominationToAmount` -/
def toAmount (denomination : CoinDenomination) : Int := denomination.toInt * COIN

end CoinDenomination

inductive SpendType where
  | spend | stake | mnCollateral | signMessage
  deriving DecidableEq

/-- The outcome of `CoinSpend::HasValidSignature`, which throws on a serial that is
too long. -/
inductive SpendSignature where
  | valid | invalid | invalidSerial

structure CoinSpend where
  denomination : CoinDenomination
  ptxHash : UInt256
  accChecksum : UInt32
  coinSerialNumber : Int
  version : UInt8
  spendType : SpendType
  hasValidSignature : SpendSignature
  /-- `HasValidSerial`, by whether the first parameters are used. -/
  hasValidSerial : Bool → Bool
  /-- `Verify`, by the value of the accumulator and whether parameters are verified. -/
  verify : Int → Bool → Bool

/-- `libzerocoin::PublicCoin`: its value and the outcome of `validate`. -/
structure PublicCoin where
  value : Int
  validate : Bool

/-- The zerocoin library and the zerocoin database. -/
structure ZerocoinEnv where
  /-- `TxInToZerocoinSpend`; `none` when the script does not decode. -/
  txInToZerocoinSpend : CTxIn → Option CoinSpend
  txOutToPublicCoin : CTxOut → Option PublicCoin
  txOutHash : List CTxOut → UInt256
  readCoinSpend : Int → Option UInt256
  readCoinMint : Int → Option UInt256
  readAccumulatorValue : UInt32 → Option Int
  validateAccumulatorCheckpoint : CBlock → Int → Bool
  /-- The part of `UpdatezdogecSupply` from the start height on. -/
  updateSupply : CBlock → Int → Bool

namespace CTransaction

def zerocoinInputs (tx : CTransaction) : List CTxIn :=
  tx.vin.filter fun txin => CScript.isZerocoinSpend txin.scriptSig

theorem zerocoinInputs_ne_nil {tx : CTransaction} (spend : tx.isZerocoinSpend = true) :
    tx.zerocoinInputs ≠ [] := by
  unfold isZerocoinSpend at spend
  unfold zerocoinInputs
  cases inputs : tx.vin with
  | nil =>
    rw [inputs] at spend
    cases spend
  | cons txin rest =>
    rw [inputs] at spend
    have script : CScript.isZerocoinSpend txin.scriptSig = true := (Bool.and_eq_true_iff.mp spend).2
    simp [script]

def zerocoinSpends (zerocoin : ZerocoinEnv) (tx : CTransaction) : List CoinSpend :=
  tx.zerocoinInputs.filterMap zerocoin.txInToZerocoinSpend

def redeemed (zerocoin : ZerocoinEnv) (tx : CTransaction) : Int :=
  ((tx.zerocoinSpends zerocoin).map fun spend => spend.denomination.toInt * COIN).sum

end CTransaction

end DogeCash
