import DogeCash.Script.Instruction

/-! # Counting signature operations

`GetSigOpCount` in its two forms: over the opcodes of a script, and over the script
a pay-to-script-hash input reveals.
-/

namespace DogeCash

namespace CScript

/-- The loop of `GetSigOpCount(fAccurate)`; `fuel` bounds the number of
instructions. -/
def countSigOps (fAccurate : Bool) : Nat → UInt8 → CScript → Nat
  | 0, _, _ => 0
  | fuel + 1, lastOpcode, script =>
    match getOp script with
    | none => 0
    | some (opcode, _, rest) =>
      let n :=
        if opcode = 0xac ∨ opcode = 0xad then 1
        else if opcode = 0xae ∨ opcode = 0xaf then
          if fAccurate ∧ 0x51 ≤ lastOpcode ∧ lastOpcode ≤ 0x60 then lastOpcode.toNat - 0x50
          else 20
        else 0
      n + countSigOps fAccurate fuel opcode rest

/-- What an opcode adds to the count, after the opcode before it. -/
def opcodeSigOps (fAccurate : Bool) (lastOpcode opcode : UInt8) : Nat :=
  if opcode = 0xac ∨ opcode = 0xad then 1
  else if opcode = 0xae ∨ opcode = 0xaf then
    if fAccurate ∧ 0x51 ≤ lastOpcode ∧ lastOpcode ≤ 0x60 then lastOpcode.toNat - 0x50
    else 20
  else 0

theorem opcodeSigOps_le (fAccurate : Bool) (lastOpcode opcode : UInt8) :
    opcodeSigOps fAccurate lastOpcode opcode ≤ 20 := by
  unfold opcodeSigOps
  split_ifs with _ _ small
  · omega
  · have := UInt8.le_iff_toNat_le.mp small.2.2
    simp at this
    omega
  · omega
  · omega

variable {fAccurate : Bool} {fuel : Nat}

theorem countSigOps_of_getOp {lastOpcode opcode : UInt8} {script rest : CScript} {data : Valtype}
    (read : getOp script = some (opcode, data, rest)) :
    countSigOps fAccurate (fuel + 1) lastOpcode script =
      opcodeSigOps fAccurate lastOpcode opcode + countSigOps fAccurate fuel opcode rest := by
  simp only [countSigOps, read, opcodeSigOps]

theorem countSigOps_of_none {lastOpcode : UInt8} {script : CScript} (fails : getOp script = none) :
    countSigOps fAccurate fuel lastOpcode script = 0 := by
  cases fuel with
  | zero => rfl
  | succ fuel => simp only [countSigOps, fails]

theorem countSigOps_accurate_le (fuel : Nat) (lastOpcode : UInt8) (script : CScript) :
    countSigOps true fuel lastOpcode script ≤ countSigOps false fuel lastOpcode script := by
  induction fuel generalizing lastOpcode script with
  | zero => exact Nat.le_refl 0
  | succ fuel ih =>
    cases read : getOp script with
    | none => rw [countSigOps_of_none read, countSigOps_of_none read]
    | some result =>
      obtain ⟨opcode, data, rest⟩ := result
      rw [countSigOps_of_getOp read, countSigOps_of_getOp read]
      refine Nat.add_le_add ?_ (ih opcode rest)
      have few := opcodeSigOps_le true lastOpcode opcode
      unfold opcodeSigOps at few ⊢
      split_ifs at few ⊢
      all_goals simp_all

/-- `CScript::GetSigOpCount(bool)` -/
def getSigOpCount (script : CScript) (fAccurate : Bool) : Nat :=
  countSigOps fAccurate script.length 0xff script

/-- The loop of `GetSigOpCount(scriptSig)`: the data of the last instruction, if
all of them push. -/
def lastPush : Nat → Valtype → CScript → Option Valtype
  | _, data, [] => some data
  | 0, _, _ => none
  | fuel + 1, _, script =>
    match getOp script with
    | none => none
    | some (opcode, data, rest) => if 0x60 < opcode then none else lastPush fuel data rest

/-- `CScript::GetSigOpCount(const CScript& scriptSig)` -/
def getSigOpCountFor (script scriptSig : CScript) : Nat :=
  if !isPayToScriptHash script then getSigOpCount script true
  else
    match lastPush scriptSig.length [] scriptSig with
    | none => 0
    | some subscript => getSigOpCount subscript true

theorem getSigOpCount_accurate_le (script : CScript) :
    script.getSigOpCount true ≤ script.getSigOpCount false :=
  countSigOps_accurate_le _ _ _

end CScript

end DogeCash
