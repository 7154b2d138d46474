import DogeCash.Primitives.Script

/-! # Transactions and blocks

The data types of `primitives/transaction.h` and `primitives/block.h` with the
classification of a transaction as coinbase, coinstake or zerocoin transaction.
A transaction carries its id in the field `hash`, as the source does: the id is
computed once, from the serialized transaction, when the object is built.
-/

namespace DogeCash

/-- `COutPoint`: an output, by the id of its transaction and its position. -/
structure COutPoint where
  hash : UInt256
  n : UInt32
  deriving DecidableEq

namespace COutPoint

/-- `COutPoint::SetNull` -/
def null : COutPoint := ⟨0, 0xffffffff⟩

def isNull (out : COutPoint) : Bool := out.hash == 0 && out.n == 0xffffffff

end COutPoint

/-- `CTxIn`: the outpoint an input claims, the script that unlocks it and the
sequence number, which a zerocoin spend uses for its denomination. -/
structure CTxIn where
  prevout : COutPoint
  scriptSig : CScript
  nSequence : UInt32
  deriving DecidableEq

/-- `CTxOut`: a value and the script that locks it. -/
structure CTxOut where
  nValue : Int
  scriptPubKey : CScript
  nRounds : Int
  deriving DecidableEq

namespace CTxOut

/-- `CTxOut(nValue, scriptPubKey)` -/
def of (nValue : Int) (scriptPubKey : CScript) : CTxOut := ⟨nValue, scriptPubKey, -10⟩

/-- `CTxOut::SetNull`, also the value of a default-constructed output. -/
def null : CTxOut := ⟨-1, [], -10⟩

/-- `CTxOut::IsNull` looks only at the value. -/
def isNull (out : CTxOut) : Bool := out.nValue == -1

def isEmpty (out : CTxOut) : Bool := out.nValue == 0 && out.scriptPubKey.isEmpty

def isZerocoinMint (out : CTxOut) : Bool :=
  !out.scriptPubKey.isEmpty && CScript.isZerocoinMint out.scriptPubKey

@[simp] theorem of_nValue (nValue : Int) (scriptPubKey : CScript) :
    (of nValue scriptPubKey).nValue = nValue := rfl

@[simp] theorem isNull_null : null.isNull = true := rfl

theorem not_isNull_of_nonneg {out : CTxOut} (nonneg : 0 ≤ out.nValue) : out.isNull = false := by
  simp only [isNull, beq_eq_false_iff_ne, ne_eq]
  omega

end CTxOut

structure CTransaction where
  hash : UInt256
  nVersion : Int32
  vin : List CTxIn
  vout : List CTxOut
  nLockTime : UInt32
  deriving DecidableEq

namespace CTransaction

/-- `CTransaction::IsZerocoinSpend` reads only the first input. The source
reads `scriptSig[0]` unguarded; an empty script is modelled as not matching. -/
def isZerocoinSpend (tx : CTransaction) : Bool :=
  match tx.vin with
  | [] => false
  | txin :: _ => txin.prevout.hash == 0 && CScript.isZerocoinSpend txin.scriptSig

def isZerocoinMint (tx : CTransaction) : Bool :=
  tx.vout.any fun out => CScript.isZerocoinMint out.scriptPubKey

def containsZerocoins (tx : CTransaction) : Bool := tx.isZerocoinSpend || tx.isZerocoinMint

def isCoinBase (tx : CTransaction) : Bool :=
  match tx.vin with
  | [txin] => txin.prevout.isNull && !tx.containsZerocoins
  | _ => false

/-- `CTransaction::IsCoinStake`: the coinstake is marked by an empty first
output. -/
def isCoinStake (tx : CTransaction) : Bool :=
  match tx.vin, tx.vout with
  | txin :: _, out :: _ :: _ =>
    !(txin.prevout.isNull && !CScript.isZerocoinSpend txin.scriptSig) && out.isEmpty
  | _, _ => false

def hasP2CSOutputs (tx : CTransaction) : Bool :=
  tx.vout.any fun out => CScript.isPayToColdStaking out.scriptPubKey

/-- One round of the loop of `CTransaction::GetValueOut`: `none` where the
source throws, on a negative value and on a sum past the `int64_t` range. -/
def addValueOut (nValueOut : Int) (out : CTxOut) : Option Int :=
  if out.nValue < 0 then none
  else if int64Max < nValueOut + out.nValue then none
  else some (nValueOut + out.nValue)

def getValueOut (tx : CTransaction) : Option Int := tx.vout.foldlM addValueOut 0

def getValueOutUnspendable (tx : CTransaction) : Int :=
  (tx.vout.map fun out =>
    if !out.isNull && !out.isEmpty && CScript.isUnspendable out.scriptPubKey then out.nValue
    else 0).sum

/-- `CTransaction::GetZerocoinSpent`: the denominations a zerocoin spend claims
in the sequence numbers of its inputs. -/
def getZerocoinSpent (tx : CTransaction) : Int :=
  if tx.isZerocoinSpend then
    (tx.vin.map fun txin =>
      if CScript.isZerocoinSpend txin.scriptSig then (txin.nSequence.toNat : Int) * COIN
      else 0).sum
  else 0

/-- The sum of the values of the outputs, as `getValueOut` computes it when it
does not throw. -/
def valueOut (tx : CTransaction) : Int := (tx.vout.map CTxOut.nValue).sum

theorem addValueOut_of_fits {nValueOut : Int} {out : CTxOut} (nonneg : 0 ≤ out.nValue)
    (fits : nValueOut + out.nValue ≤ int64Max) :
    addValueOut nValueOut out = some (nValueOut + out.nValue) := by
  unfold addValueOut
  rw [if_neg (by omega), if_neg (by omega)]

private theorem foldlM_addValueOut (outs : List CTxOut) (start total : Int)
    (added : outs.foldlM addValueOut start = some total) :
    total = start + (outs.map CTxOut.nValue).sum ∧ ∀ out ∈ outs, 0 ≤ out.nValue := by
  induction outs generalizing start with
  | nil =>
    simp only [List.foldlM_nil, Option.pure_def, Option.some.injEq] at added
    simp [added]
  | cons out rest ih =>
    obtain ⟨next, first, later⟩ := Option.bind_eq_some_iff.mp added
    unfold addValueOut at first
    split at first
    · cases first
    · split at first
      · cases first
      · cases first
        obtain ⟨sum, nonneg⟩ := ih _ later
        refine ⟨by rw [sum, List.map_cons, List.sum_cons]; omega, ?_⟩
        intro other mem
        rcases List.mem_cons.mp mem with rfl | mem
        · omega
        · exact nonneg other mem

variable {tx : CTransaction}

/-- When `GetValueOut` returns, it returns the sum of the output values, none of
which is negative. -/
theorem getValueOut_eq_some {total : Int} (computed : tx.getValueOut = some total) :
    total = tx.valueOut ∧ ∀ out ∈ tx.vout, 0 ≤ out.nValue := by
  obtain ⟨sum, nonneg⟩ := foldlM_addValueOut tx.vout 0 total computed
  exact ⟨by rw [sum, Int.zero_add]; rfl, nonneg⟩

theorem isCoinBase_eq_false_of_isZerocoinSpend (spend : tx.isZerocoinSpend = true) :
    tx.isCoinBase = false := by
  unfold isCoinBase
  split
  · simp [containsZerocoins, spend]
  · rfl

end CTransaction

/-- `CBlock`, with the header fields the modelled functions read. The hash is
computed from the header, as for transactions. -/
structure CBlock where
  hash : UInt256
  hashPrevBlock : UInt256
  hashMerkleRoot : UInt256
  nTime : UInt32
  nBits : UInt32
  vtx : List CTransaction
  deriving DecidableEq

namespace CBlock

def isProofOfStake (block : CBlock) : Bool :=
  match block.vtx with
  | _ :: second :: _ => second.isCoinStake
  | _ => false

def isProofOfWork (block : CBlock) : Bool := !block.isProofOfStake

end CBlock

end DogeCash
