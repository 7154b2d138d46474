import DogeCash.Foundation.Loop
import DogeCash.Foundation.Reads
import DogeCash.Script.Solver

/-! # The reads of `Solver`

`Solver` walks through a script with iterators, of which `GetOp2` asks how far they are from the
end before it reads. Here an iterator is what is left of the script from it on, each read may be
out of range, and each loop goes on until it is done. The one read that nothing guards is that of
the bytes after the second one of a zerocoin mint: the test for a mint asks for one byte only.
-/

namespace DogeCash

open Op

/-- What ends a script function early, apart from a read out of range. -/
inductive ScriptFault where
  | assertFailed
  /-- `uint_error` -/
  | uintError

abbrev ScriptRun (α : Type) := Except (Abort ScriptFault) α

def readUpTo {α : Type} (items : List α) (position : ℕ) : ScriptRun (List α) :=
  if position ≤ items.length then .ok (items.take position) else .error .outOfBounds

/-- What `GetOp2` leaves: its answer, the opcode, the data and the iterator. -/
structure ReadOp where
  fRet : Bool
  opcodeRet : UInt8
  vchRet : Valtype
  pc : CScript

namespace CScript

/-- `GetOp2` returns false. -/
def opFailed (pc : CScript) : ReadOp := ⟨false, OP_INVALIDOPCODE, [], pc⟩

/-- The end of `GetOp2`: the operand of an opcode. The distance to the end is kept in 32 bits. -/
def readOperand (opcode : UInt8) (nSize : ℕ) (pc : CScript) : ScriptRun ReadOp :=
  if pc.length % 2 ^ 32 < nSize then .ok (opFailed pc)
  else do
    let vchRet ← readUpTo pc nSize
    let pc ← readFrom pc nSize
    pure ⟨true, opcode, vchRet, pc⟩

/-- The bytes that give the size of an operand, so many of them. -/
def readSize (opcode : UInt8) (width : ℕ) (pc : CScript) : ScriptRun ReadOp :=
  if pc.length < width then .ok (opFailed pc)
  else do
    let size ← readUpTo pc width
    let pc ← readFrom pc width
    readOperand opcode (fromLittleEndian size) pc

def getOp2 (pc : CScript) : ScriptRun ReadOp :=
  if pc.length < 1 then .ok (opFailed pc)
  else do
    let opcode ← readAt pc 0
    let pc ← readFrom pc 1
    if 0x4e < opcode then pure ⟨true, opcode, [], pc⟩
    else if opcode < 0x4c then readOperand opcode opcode.toNat pc
    else if opcode = 0x4c then readSize opcode 1 pc
    else if opcode = 0x4d then readSize opcode 2 pc
    else readSize opcode 4 pc

theorem readUpTo_of_le {α : Type} {items : List α} {position : ℕ} (inside : position ≤ items.length) :
    readUpTo items position = .ok (items.take position) := if_pos inside

theorem readFrom_of_le {α ε : Type} {items : List α} {position : ℕ}
    (inside : position ≤ items.length) :
    (readFrom items position : Except (Abort ε) (List α)) = .ok (items.drop position) :=
  if_pos inside

/-- What `GetOp2` can do: fail without an opcode and data, or read what `GetOp` reads. It fails on
a script that `GetOp` reads only if the script is too long for 32 bits. -/
def IsRead (pc : CScript) (read : ReadOp) : Prop :=
  (∃ left, read = opFailed left ∧ (pc.length < 2 ^ 32 → getOp pc = none)) ∨
    ∃ opcode vch left, read = ⟨true, opcode, vch, left⟩ ∧ getOp pc = some (opcode, vch, left)

theorem readOperand_eq (opcode : UInt8) (nSize : ℕ) (pc : CScript) :
    ∃ read, readOperand opcode nSize pc = .ok read ∧
      ((∃ left, read = opFailed left ∧ (pc.length < 2 ^ 32 → takeData nSize pc = none)) ∨
        ∃ vch left, read = ⟨true, opcode, vch, left⟩ ∧ takeData nSize pc = some (vch, left)) := by
  rw [readOperand]
  by_cases few : pc.length % 2 ^ 32 < nSize
  · rw [if_pos few]
    refine ⟨_, rfl, Or.inl ⟨pc, rfl, fun short => ?_⟩⟩
    rw [Nat.mod_eq_of_lt short] at few
    exact if_pos few
  · have enough : nSize ≤ pc.length := (not_lt.mp few).trans (Nat.mod_le _ _)
    rw [if_neg few, readUpTo_of_le enough, readFrom_of_le enough]
    exact ⟨_, rfl, Or.inr ⟨_, _, rfl, if_neg (not_lt.mpr enough)⟩⟩

def sizedData (width : ℕ) (pc : CScript) : Option (Valtype × CScript) :=
  if pc.length < width then none else takeData (fromLittleEndian (pc.take width)) (pc.drop width)

/-- The operand that `GetOp` reads behind an opcode. -/
def operand (opcode : UInt8) (pc : CScript) : Option (Valtype × CScript) :=
  if 0x4e < opcode then some ([], pc)
  else if opcode < 0x4c then takeData opcode.toNat pc
  else if opcode = 0x4c then sizedData 1 pc
  else if opcode = 0x4d then sizedData 2 pc
  else sizedData 4 pc

theorem readSize_eq (opcode : UInt8) (width : ℕ) (pc : CScript) :
    ∃ read, readSize opcode width pc = .ok read ∧
      ((∃ left, read = opFailed left ∧ (pc.length < 2 ^ 32 → sizedData width pc = none)) ∨
        ∃ vch left, read = ⟨true, opcode, vch, left⟩ ∧ sizedData width pc = some (vch, left)) := by
  rw [readSize, sizedData]
  by_cases few : pc.length < width
  · rw [if_pos few, if_pos few]
    exact ⟨_, rfl, Or.inl ⟨pc, rfl, fun _ => rfl⟩⟩
  · rw [if_neg few, if_neg few, readUpTo_of_le (not_lt.mp few), readFrom_of_le (not_lt.mp few)]
    obtain ⟨read, ends, outcome⟩ :=
      readOperand_eq opcode (fromLittleEndian (pc.take width)) (pc.drop width)
    refine ⟨read, ends, outcome.imp_left fun failed => ?_⟩
    obtain ⟨left, same, none⟩ := failed
    refine ⟨left, same, fun short => none ?_⟩
    rw [List.length_drop]
    exact (Nat.sub_le _ _).trans_lt short

theorem lt_of_not_push {opcode : UInt8} (direct : ¬opcode < 0x4c) (one : opcode ≠ 0x4c)
    (two : opcode ≠ 0x4d) (four : opcode ≠ 0x4e) : 0x4e < opcode := by
  rw [UInt8.lt_iff_toNat_lt] at direct ⊢
  rw [ne_eq, ← UInt8.toNat_inj] at one two four
  simp only [UInt8.reduceToNat] at *
  omega

theorem getOp_cons (opcode : UInt8) (pc : CScript) :
    getOp (opcode :: pc) = (operand opcode pc).map fun (vch, left) => (opcode, vch, left) := by
  rw [operand]
  by_cases direct : opcode < 0x4c
  · have low : ¬(0x4e : UInt8) < opcode := by
      rw [UInt8.lt_iff_toNat_lt] at direct ⊢
      simp only [UInt8.reduceToNat] at *
      omega
    rw [if_neg low, if_pos direct]
    simp only [getOp, if_pos direct]
  by_cases one : opcode = 0x4c
  · subst one
    cases pc with
    | nil => rfl
    | cons size pc => simp [getOp, sizedData, fromLittleEndian]
  by_cases two : opcode = 0x4d
  · subst two
    rcases pc with _ | ⟨-, _ | ⟨-, pc⟩⟩
    · rfl
    · rfl
    · have long : ¬pc.length + 1 + 1 < 2 := by omega
      simp [getOp, sizedData, long]
  by_cases four : opcode = 0x4e
  · subst four
    rcases pc with _ | ⟨a, _ | ⟨b, _ | ⟨c, _ | ⟨d, pc⟩⟩⟩⟩
    · rfl
    · rfl
    · rfl
    · rfl
    · have long : ¬pc.length + 1 + 1 + 1 + 1 < 4 := by omega
      simp [getOp, sizedData, long]
  · rw [if_pos (lt_of_not_push direct one two four)]
    simp only [getOp, if_neg direct, if_neg one, if_neg two, if_neg four]
    rfl

theorem getOp2_eq (pc : CScript) : ∃ read, getOp2 pc = .ok read ∧ IsRead pc read := by
  cases pc with
  | nil => exact ⟨_, rfl, Or.inl ⟨[], rfl, fun _ => rfl⟩⟩
  | cons opcode pc =>
    have mapped : ∀ read : ReadOp,
        ((∃ left, read = opFailed left ∧ (pc.length < 2 ^ 32 → operand opcode pc = none)) ∨
          ∃ vch left, read = ⟨true, opcode, vch, left⟩ ∧ operand opcode pc = some (vch, left)) →
        IsRead (opcode :: pc) read := by
      intro read outcome
      refine outcome.imp (fun failed => ?_) fun found => ?_
      · obtain ⟨left, same, none⟩ := failed
        refine ⟨left, same, fun short => ?_⟩
        rw [getOp_cons, none (by rw [List.length_cons] at short; omega)]
        rfl
      · obtain ⟨vch, left, same, some⟩ := found
        refine ⟨opcode, vch, left, same, ?_⟩
        rw [getOp_cons, some]
        rfl
    have steps : getOp2 (opcode :: pc) =
        if 0x4e < opcode then .ok ⟨true, opcode, [], pc⟩
        else if opcode < 0x4c then readOperand opcode opcode.toNat pc
        else if opcode = 0x4c then readSize opcode 1 pc
        else if opcode = 0x4d then readSize opcode 2 pc
        else readSize opcode 4 pc := rfl
    rw [operand] at mapped
    rw [steps]
    split_ifs at mapped ⊢
    · exact ⟨_, rfl, mapped _ (Or.inr ⟨_, _, rfl, rfl⟩)⟩
    · obtain ⟨read, ends, outcome⟩ := readOperand_eq opcode opcode.toNat pc
      exact ⟨read, ends, mapped read outcome⟩
    · obtain ⟨read, ends, outcome⟩ := readSize_eq opcode 1 pc
      exact ⟨read, ends, mapped read outcome⟩
    · obtain ⟨read, ends, outcome⟩ := readSize_eq opcode 2 pc
      exact ⟨read, ends, mapped read outcome⟩
    · obtain ⟨read, ends, outcome⟩ := readSize_eq opcode 4 pc
      exact ⟨read, ends, mapped read outcome⟩

theorem getOp2_length {pc : CScript} {read : ReadOp} (ends : getOp2 pc = .ok read)
    (succeeds : read.fRet = true) : read.pc.length < pc.length := by
  obtain ⟨other, found, outcome⟩ := getOp2_eq pc
  cases ends.symm.trans found
  rcases outcome with ⟨left, rfl, -⟩ | ⟨opcode, vch, left, rfl, plain⟩
  · cases succeeds
  · exact getOp_length plain

/-- One round of the loop of `CScript::IsPushOnly`. -/
def isPushOnlyRound (pc : CScript) : ScriptRun (CScript ⊕ Bool) :=
  if pc.length = 0 then pure (.inr true)
  else do
    let read ← getOp2 pc
    if read.fRet = false then pure (.inr false)
    else if 0x60 < read.opcodeRet then pure (.inr false)
    else pure (.inl read.pc)

theorem isPushOnlyRound_lowers (pc next : CScript)
    (step : isPushOnlyRound pc = .ok (.inl next)) : next.length < pc.length := by
  rw [isPushOnlyRound] at step
  split_ifs at step with done
  · cases step
  · obtain ⟨read, ends, step⟩ := bind_eq_ok.mp step
    split_ifs at step with failed pushes
    · cases step
    · cases step
    · cases step
      exact getOp2_length ends (Bool.not_eq_false _ ▸ failed)

/-- `CScript::IsPushOnly` from an iterator on. -/
def isPushOnlyRead (pc : CScript) : ScriptRun Bool :=
  loopWithin isPushOnlyRound List.length isPushOnlyRound_lowers pc

def decodeOP_N (opcode : UInt8) : ScriptRun UInt8 :=
  if opcode = 0 then pure 0
  else if 0x51 ≤ opcode ∧ opcode ≤ 0x60 then pure (opcode - 0x50)
  else .error (.failed .assertFailed)

end CScript

namespace Solver

open CScript

/-- One round of the loop for `OP_PUBKEYS`. -/
def pubKeysRound (state : ReadOp × List Valtype) :
    ScriptRun ((ReadOp × List Valtype) ⊕ (ReadOp × List Valtype)) :=
  if isPubKeySized state.1.vchRet then do
    let next ← getOp2 state.1.pc
    let vSolutions := state.2 ++ [state.1.vchRet]
    if next.fRet = false then pure (.inr (next, vSolutions)) else pure (.inl (next, vSolutions))
  else pure (.inr state)

theorem pubKeysRound_lowers (state next : ReadOp × List Valtype)
    (step : pubKeysRound state = .ok (.inl next)) : next.1.pc.length < state.1.pc.length := by
  rw [pubKeysRound] at step
  split_ifs at step with sized
  · obtain ⟨read, ends, step⟩ := bind_eq_ok.mp step
    split_ifs at step with failed
    · cases step
    · cases step
      exact getOp2_length ends (Bool.not_eq_false _ ▸ failed)
  · cases step

/-- The loop for `OP_PUBKEYS`: what was read last, and the keys. -/
def pubKeysLoop (state : ReadOp × List Valtype) : ScriptRun (ReadOp × List Valtype) :=
  loopWithin pubKeysRound (fun state => state.1.pc.length) pubKeysRound_lowers state

abbrev CompareState := CScript × CScript × List Valtype

/-- The comparison of an instruction of the script with one of the template; `none` for `break`. -/
def matchRead (read1 read2 : ReadOp) (vSolutions : List Valtype) :
    ScriptRun (CompareState ⊕ Option (List Valtype)) :=
  let goOn (found : List Valtype) : ScriptRun (CompareState ⊕ Option (List Valtype)) :=
    pure (.inl (read1.pc, read2.pc, vSolutions ++ found))
  let stop : ScriptRun (CompareState ⊕ Option (List Valtype)) := pure (.inr none)
  if read2.opcodeRet = OP_PUBKEY then
    if read1.vchRet.length < 33 ∨ 65 < read1.vchRet.length then stop else goOn [read1.vchRet]
  else if read2.opcodeRet = OP_PUBKEYHASH then
    if read1.vchRet.length ≠ 20 then stop else goOn [read1.vchRet]
  else if read2.opcodeRet = OP_SMALLINTEGER then
    if read1.opcodeRet = 0 ∨ 0x51 ≤ read1.opcodeRet ∧ read1.opcodeRet ≤ 0x60 then do
      let n ← decodeOP_N read1.opcodeRet
      goOn [[n]]
    else stop
  else if read1.opcodeRet ≠ read2.opcodeRet ∨ read1.vchRet ≠ read2.vchRet then stop
  else goOn []

/-- One round of the comparison with a template. -/
def compareRound (state : CompareState) : ScriptRun (CompareState ⊕ Option (List Valtype)) :=
  if state.1.length = 0 ∧ state.2.1.length = 0 then pure (.inr (some state.2.2))
  else do
    let read1 ← getOp2 state.1
    if read1.fRet = false then pure (.inr none)
    else do
      let read2 ← getOp2 state.2.1
      if read2.fRet = false then pure (.inr none)
      else if read2.opcodeRet = OP_PUBKEYS then do
        let (read1, vSolutions) ← pubKeysLoop (read1, state.2.2)
        let read2 ← getOp2 read2.pc
        if read2.fRet = false then pure (.inr none) else matchRead read1 read2 vSolutions
      else matchRead read1 read2 state.2.2

theorem matchRead_next {read1 read2 : ReadOp} {vSolutions : List Valtype} {next : CompareState}
    (step : matchRead read1 read2 vSolutions = .ok (.inl next)) : next.2.1 = read2.pc := by
  unfold matchRead at step
  split_ifs at step with key short hash size number small plain
  · cases step
  · cases step
    rfl
  · cases step
  · cases step
    rfl
  · obtain ⟨n, -, step⟩ := bind_eq_ok.mp step
    cases step
    rfl
  · cases step
  · cases step
  · cases step
    rfl

theorem compareRound_lowers (state next : CompareState)
    (step : compareRound state = .ok (.inl next)) : next.2.1.length < state.2.1.length := by
  rw [compareRound] at step
  split_ifs at step with done
  · cases step
  obtain ⟨read1, -, step⟩ := bind_eq_ok.mp step
  split_ifs at step with failed1
  · cases step
  obtain ⟨read2, ends2, step⟩ := bind_eq_ok.mp step
  split_ifs at step with failed2 keys
  · cases step
  · have less := getOp2_length ends2 (Bool.not_eq_false _ ▸ failed2)
    obtain ⟨⟨read1, vSolutions⟩, -, step⟩ := bind_eq_ok.mp step
    obtain ⟨after2, ends2, step⟩ := bind_eq_ok.mp step
    split_ifs at step with failed2
    · cases step
    · rw [matchRead_next step]
      exact (getOp2_length ends2 (Bool.not_eq_false _ ▸ failed2)).trans less
  · rw [matchRead_next step]
    exact getOp2_length ends2 (Bool.not_eq_false _ ▸ failed2)

/-- The comparison with a template: the solutions, or `none` where it breaks off. -/
def compare (state : CompareState) : ScriptRun (Option (List Valtype)) :=
  loopWithin compareRound (fun state => state.2.1.length) compareRound_lowers state

/-- The additional checks for `TX_MULTISIG`. -/
def checkMultiSigRead (vSolutions : List Valtype) : ScriptRun Bool := do
  let front ← readAt vSolutions 0
  let m ← readAt front 0
  let back ← readAt vSolutions (vSolutions.length - 1)
  let n ← readAt back 0
  pure !(m < 1 || n < 1 || n < m || vSolutions.length - 2 != n.toNat)

/-- The loop over the templates. -/
def scanTemplates (script1 : CScript) :
    List (TxnOutType × CScript) → ScriptRun (Option (TxnOutType × List Valtype))
  | [] => pure none
  | (type, script2) :: rest => do
    match ← compare (script1, script2, []) with
    | none => scanTemplates script1 rest
    | some vSolutions =>
      if type = .multiSig then do
        if ← checkMultiSigRead vSolutions then pure (some (type, vSolutions)) else pure none
      else pure (some (type, vSolutions))

end Solver

open Solver

/-- The test for a script that only carries data. -/
def isDataRead (scriptPubKey : CScript) : ScriptRun Bool :=
  if 1 ≤ scriptPubKey.length then do
    let first ← readAt scriptPubKey 0
    if first = OP_RETURN then do
      let pc ← readFrom scriptPubKey 1
      CScript.isPushOnlyRead pc
    else pure false
  else pure false

/-- `Solver`, with its reads: the type and the solutions; `none` when it returns false. -/
def solverRead (scriptPubKey : CScript) : ScriptRun (Option (TxnOutType × List Valtype)) :=
  if scriptPubKey.isPayToScriptHash then do
    let front ← readUpTo scriptPubKey 22
    let hashBytes ← readFrom front 2
    pure (some (.scriptHash, [hashBytes]))
  else if scriptPubKey.isZerocoinMint then
    if 150 < scriptPubKey.length then pure none
    else do
      let hashBytes ← readFrom scriptPubKey 2
      pure (some (.zerocoinMint, [hashBytes]))
  else do
    if ← isDataRead scriptPubKey then pure (some (.nullData, []))
    else scanTemplates scriptPubKey templates

end DogeCash
