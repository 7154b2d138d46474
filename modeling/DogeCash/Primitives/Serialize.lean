import DogeCash.Foundation.LittleEndian
import DogeCash.Primitives.Transaction

/-! # The bytes of a transaction

`GetSerializeSize` and `Serialize`, as the serialization methods of `primitives/transaction.h` and
`primitives/block.h` and the templates of `serialize.h` give them: numbers with the lowest byte
first, and in front of a vector the number of its elements in one, three, five or nine bytes.
-/

namespace DogeCash

open LittleEndian (bytes)

/-- `MAX_SIZE` -/
def maxSize : ℕ := 0x02000000

def getSizeOfCompactSize (nSize : ℕ) : ℕ :=
  if nSize < 253 then 1 else if nSize ≤ 0xffff then 3 else if nSize ≤ 0xffffffff then 5 else 9

def CScript.serializeSize (script : CScript) : ℕ :=
  getSizeOfCompactSize script.length + script.length

def CTxIn.serializeSize (txin : CTxIn) : ℕ := 36 + CScript.serializeSize txin.scriptSig + 4

def CTxOut.serializeSize (txout : CTxOut) : ℕ := 8 + CScript.serializeSize txout.scriptPubKey

def CTransaction.serializeSize (tx : CTransaction) : ℕ :=
  4 + (getSizeOfCompactSize tx.vin.length + (tx.vin.map CTxIn.serializeSize).sum) +
    (getSizeOfCompactSize tx.vout.length + (tx.vout.map CTxOut.serializeSize).sum) + 4

def headerSerializeSize (nVersion : Int) : ℕ := if 3 < nVersion ∧ nVersion < 7 then 112 else 80

/-- `CBlock`: the header, the transactions, and the signature if the second transaction is a
coinstake. -/
def serializeSizeOfBlock (nVersion : Int) (vtx : List CTransaction) (vchBlockSig : List UInt8) :
    ℕ :=
  headerSerializeSize nVersion +
    (getSizeOfCompactSize vtx.length + (vtx.map CTransaction.serializeSize).sum) +
    match vtx with
    | _ :: second :: _ =>
      if second.isCoinStake then getSizeOfCompactSize vchBlockSig.length + vchBlockSig.length
      else 0
    | _ => 0

def writeCompactSize (nSize : ℕ) : List UInt8 :=
  if nSize < 253 then bytes 1 nSize
  else if nSize ≤ 0xffff then 253 :: bytes 2 nSize
  else if nSize ≤ 0xffffffff then 254 :: bytes 4 nSize
  else 255 :: bytes 8 nSize

/-- `Serialize` of a vector: the number of elements and the elements. -/
def serializeVector {α : Type} (serialize : α → List UInt8) (v : List α) : List UInt8 :=
  writeCompactSize v.length ++ v.flatMap serialize

/-- `Serialize` of a vector of bytes, in one piece. -/
def serializeBytes (v : List UInt8) : List UInt8 := writeCompactSize v.length ++ v

def UInt256.serialize (number : UInt256) : List UInt8 := bytes 32 number.toNat

/-- `COutPoint::SerializationOp`: the object as it is in memory. -/
def COutPoint.serialize (out : COutPoint) : List UInt8 :=
  UInt256.serialize out.hash ++ bytes 4 out.n.toNat

/-- `CTxIn::SerializationOp` -/
def CTxIn.serialize (txin : CTxIn) : List UInt8 :=
  COutPoint.serialize txin.prevout ++
    (serializeBytes txin.scriptSig ++ bytes 4 txin.nSequence.toNat)

/-- `CTxOut::SerializationOp` -/
def CTxOut.serialize (txout : CTxOut) : List UInt8 :=
  bytes 8 (txout.nValue % 2 ^ 64).toNat ++ serializeBytes txout.scriptPubKey

/-- `CTransaction::SerializationOp`, which is that of `CMutableTransaction` too. -/
def CTransaction.serialize (tx : CTransaction) : List UInt8 :=
  bytes 4 tx.nVersion.toUInt32.toNat ++
    (serializeVector CTxIn.serialize tx.vin ++
      (serializeVector CTxOut.serialize tx.vout ++ bytes 4 tx.nLockTime.toNat))

end DogeCash
