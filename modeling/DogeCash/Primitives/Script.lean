import Mathlib.Data.BitVec

/-! # Scripts as byte strings

A `CScript` is a vector of bytes. The predicates here look only at its length
and at fixed positions, so they are total on every byte string; the opcode
values are those of `opcodetype`, any other byte being an unnamed opcode.
-/

namespace DogeCash

/-- `uint256`: transaction ids, block hashes and targets. -/
abbrev UInt256 := BitVec 256

instance : LawfulBEq UInt256 := instLawfulBEq

/-- `CScript`: a serialized script. -/
abbrev CScript := List UInt8

/-! A `CAmount` is an `Int`: an amount in the smallest unit. -/

/-- `COIN`: the number of units in one DOGEC. -/
def COIN : Int := 100000000

/-- The largest value of an `int64_t`. -/
def int64Max : Int := 2 ^ 63 - 1

namespace Op

/-! The opcodes the fast script tests look at. -/

abbrev OP_RETURN : UInt8 := 0x6a
abbrev OP_ROT : UInt8 := 0x7b
abbrev OP_EQUAL : UInt8 := 0x87
abbrev OP_EQUALVERIFY : UInt8 := 0x88
abbrev OP_HASH160 : UInt8 := 0xa9
abbrev OP_CHECKSIG : UInt8 := 0xac
abbrev OP_ZEROCOINMINT : UInt8 := 0xc1
abbrev OP_ZEROCOINSPEND : UInt8 := 0xc2
abbrev OP_CHECKCOLDSTAKEVERIFY : UInt8 := 0xd1

end Op

open Op

namespace CScript

/-- `CScript::IsUnspendable`: the output is dropped when it enters the coin set. -/
def isUnspendable (script : CScript) : Bool := script.head? == some OP_RETURN

def isZerocoinMint (script : CScript) : Bool := script.head? == some OP_ZEROCOINMINT

def isZerocoinSpend (script : CScript) : Bool := script.head? == some OP_ZEROCOINSPEND

def isPayToScriptHash (script : CScript) : Bool :=
  script.length == 23 && script[0]? == some OP_HASH160 && script[1]? == some 0x14 &&
    script[22]? == some OP_EQUAL

def isPayToColdStaking (script : CScript) : Bool :=
  script.length == 51 && script[2]? == some OP_ROT && script[4]? == some OP_CHECKCOLDSTAKEVERIFY &&
    script[5]? == some 0x14 && script[27]? == some 0x14 && script[49]? == some OP_EQUALVERIFY &&
    script[50]? == some OP_CHECKSIG

@[simp] theorem isUnspendable_nil : isUnspendable [] = false := rfl

@[simp] theorem isZerocoinMint_nil : isZerocoinMint [] = false := rfl

@[simp] theorem isZerocoinSpend_nil : isZerocoinSpend [] = false := rfl

end CScript

end DogeCash
