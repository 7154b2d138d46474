import DogeCash.Script.SigOps

/-! # The standard forms of a script

`Solver` compares a script with the templates of the standard transaction types. In a
template some opcodes stand for more than themselves: for a public key, for any number of
them, for a hash or for a small number; what they match is the solution.
-/

namespace DogeCash

namespace Op

/-! The opcodes of the templates. The last four occur only there. -/

abbrev OP_IF : UInt8 := 0x63
abbrev OP_ELSE : UInt8 := 0x67
abbrev OP_ENDIF : UInt8 := 0x68
abbrev OP_DUP : UInt8 := 0x76
abbrev OP_CHECKMULTISIG : UInt8 := 0xae
abbrev OP_SMALLINTEGER : UInt8 := 0xfa
abbrev OP_PUBKEYS : UInt8 := 0xfb
abbrev OP_PUBKEYHASH : UInt8 := 0xfd
abbrev OP_PUBKEY : UInt8 := 0xfe
abbrev OP_INVALIDOPCODE : UInt8 := 0xff

end Op

open Op

/-- `txnouttype`, without `TX_NONSTANDARD`, for which `Solver` returns false. -/
inductive TxnOutType where
  | pubKey | pubKeyHash | scriptHash | multiSig | nullData | zerocoinMint | coldStake
  deriving DecidableEq

namespace Solver

/-- `mTemplates`, in the order of the types. -/
def templates : List (TxnOutType × CScript) :=
  [(.pubKey, [OP_PUBKEY, OP_CHECKSIG]),
    (.pubKeyHash, [OP_DUP, OP_HASH160, OP_PUBKEYHASH, OP_EQUALVERIFY, OP_CHECKSIG]),
    (.multiSig, [OP_SMALLINTEGER, OP_PUBKEYS, OP_SMALLINTEGER, OP_CHECKMULTISIG]),
    (.coldStake, [OP_DUP, OP_HASH160, OP_ROT, OP_IF, OP_CHECKCOLDSTAKEVERIFY, OP_PUBKEYHASH,
      OP_ELSE, OP_PUBKEYHASH, OP_ENDIF, OP_EQUALVERIFY, OP_CHECKSIG])]

def isPubKeySized (vch : Valtype) : Bool := 33 ≤ vch.length && vch.length ≤ 65

/-- The loop for `OP_PUBKEYS`, from an instruction that was read: the keys, and the
instruction after them, an invalid one where reading fails. `fuel` bounds the number of
instructions. -/
def collectPubKeys : Nat → UInt8 × Valtype × CScript → List Valtype →
    List Valtype × UInt8 × Valtype × CScript
  | 0, read, vSolutions => (vSolutions, read)
  | fuel + 1, (opcode, vch, rest), vSolutions =>
    if isPubKeySized vch then
      match CScript.getOp rest with
      | none => (vSolutions ++ [vch], OP_INVALIDOPCODE, [], rest)
      | some next => collectPubKeys fuel next (vSolutions ++ [vch])
    else (vSolutions, opcode, vch, rest)

/-- What an instruction of the script gives for one opcode of a template: `none` when it
does not match. -/
def matchOpcode (opcode2 opcode1 : UInt8) (vch1 : Valtype) : Option (List Valtype) :=
  if opcode2 = OP_PUBKEY then if isPubKeySized vch1 then some [vch1] else none
  else if opcode2 = OP_PUBKEYHASH then if vch1.length = 20 then some [vch1] else none
  else if opcode2 = OP_SMALLINTEGER then
    if opcode1 = 0 then some [[0]]
    else if 0x51 ≤ opcode1 ∧ opcode1 ≤ 0x60 then some [[opcode1 - 0x50]]
    else none
  else if opcode1 = opcode2 ∧ vch1 = [] then some []
  else none

/-- The comparison with one template. Every opcode of a template is a byte of its own. -/
def matchTemplate : CScript → CScript → List Valtype → Option (List Valtype)
  | [], script, vSolutions => if script.isEmpty then some vSolutions else none
  | opcode2 :: template, script, vSolutions =>
    match CScript.getOp script with
    | none => none
    | some (opcode1, vch1, rest) =>
      if opcode2 = OP_PUBKEYS then
        match template, collectPubKeys script.length (opcode1, vch1, rest) vSolutions with
        | [], _ => none
        | opcode2 :: template, (vSolutions, opcode1, vch1, rest) =>
          (matchOpcode opcode2 opcode1 vch1).bind fun found =>
            matchTemplate template rest (vSolutions ++ found)
      else
        (matchOpcode opcode2 opcode1 vch1).bind fun found =>
          matchTemplate template rest (vSolutions ++ found)

/-- The first number of a solution, as an `unsigned char`. -/
def numberOf (vSolution : Option Valtype) : Nat := ((vSolution.getD []).headD 0).toNat

/-- The additional checks for `TX_MULTISIG`. -/
def isValidMultiSig (vSolutions : List Valtype) : Bool :=
  let m := numberOf vSolutions.head?
  let n := numberOf vSolutions.getLast?
  !(m < 1 || n < 1 || n < m || vSolutions.length - 2 != n)

end Solver

open Solver

/-- `Solver`: the type and the solutions; `none` when it returns false. -/
def solver (scriptPubKey : CScript) : Option (TxnOutType × List Valtype) :=
  if scriptPubKey.isPayToScriptHash then some (.scriptHash, [(scriptPubKey.drop 2).take 20])
  else if scriptPubKey.isZerocoinMint then
    if 150 < scriptPubKey.length then none else some (.zerocoinMint, [scriptPubKey.drop 2])
  else if scriptPubKey.head? = some OP_RETURN ∧ CScript.isPushOnly scriptPubKey.tail = true then
    some (.nullData, [])
  else
    match templates.findSome? fun template =>
      (matchTemplate template.2 scriptPubKey []).map fun vSolutions => (template.1, vSolutions) with
    | none => none
    | some (type, vSolutions) =>
      if type = .multiSig ∧ isValidMultiSig vSolutions = false then none
      else some (type, vSolutions)

/-- `ScriptSigArgsExpected`; `none` for a negative result. -/
def scriptSigArgsExpected : TxnOutType → List Valtype → Option Nat
  | .nullData, _ | .zerocoinMint, _ => none
  | .pubKey, _ => some 1
  | .pubKeyHash, _ => some 2
  | .coldStake, _ => some 3
  | .multiSig, (first :: _) :: _ => some (first.toNat + 1)
  | .multiSig, _ => none
  | .scriptHash, _ => some 1

example : solver ([0x76, 0xa9, 20] ++ List.replicate 20 7 ++ [0x88, 0xac]) =
    some (.pubKeyHash, [List.replicate 20 7]) := by decide +kernel

end DogeCash
