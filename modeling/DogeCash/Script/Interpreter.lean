import DogeCash.Foundation.Checked
import DogeCash.Foundation.Success
import DogeCash.Script.Instruction

/-! # The script interpreter

`EvalScript` runs a script on a stack of byte strings; `VerifyScript` runs the
signature script and the output script, and the script that a pay-to-script-hash
output commits to. A run ends with an error or with the stack it leaves; in the
model the top of a stack is the head of the list, and so is the end of `vfExec`.

The verification flags are a bit set. They decide how strictly numbers, pushes,
signatures and keys have to be encoded and whether some opcodes do anything.
-/

namespace DogeCash

/-- `ScriptError`, the values the interpreter sets. `unknownError` is also what an
exception thrown by `CScriptNum` ends in. -/
inductive ScriptError where
  | unknownError | evalFalse | opReturn | scriptSize | pushSize | opCount | stackSize | sigCount
  | pubKeyCount | verify | equalVerify | checkMultiSigVerify | checkSigVerify | numEqualVerify
  | badOpcode | disabledOpcode | invalidStackOperation | invalidAltStackOperation
  | unbalancedConditional | negativeLockTime | unsatisfiedLockTime | sigHashType | sigDer
  | minimalData | sigPushOnly | sigHighS | sigNullDummy | pubKeyType | discourageUpgradableNops
  | checkColdStakeVerify
  deriving DecidableEq

abbrev ScriptFlags := UInt32

namespace ScriptFlags

def P2SH : ScriptFlags := 0x1
def STRICTENC : ScriptFlags := 0x2
def DERSIG : ScriptFlags := 0x4
def LOW_S : ScriptFlags := 0x8
def NULLDUMMY : ScriptFlags := 0x10
def SIGPUSHONLY : ScriptFlags := 0x20
def MINIMALDATA : ScriptFlags := 0x40
def DISCOURAGE_UPGRADABLE_NOPS : ScriptFlags := 0x80
def CHECKLOCKTIMEVERIFY : ScriptFlags := 0x200

/-- `MANDATORY_SCRIPT_VERIFY_FLAGS` -/
def mandatory : ScriptFlags := P2SH

/-- `STANDARD_SCRIPT_VERIFY_FLAGS` -/
def standard : ScriptFlags :=
  mandatory ||| DERSIG ||| STRICTENC ||| MINIMALDATA ||| NULLDUMMY ||| DISCOURAGE_UPGRADABLE_NOPS

/-- `(flags & mask) != 0` -/
def has (flags mask : ScriptFlags) : Bool := flags &&& mask != 0

end ScriptFlags

/-- What the interpreter takes from outside: the hash functions and
`CPubKey::CheckLowS`. -/
structure ScriptCrypto where
  hash : HashOp → Valtype → Valtype
  checkLowS : Valtype → Bool

/-- `BaseSignatureChecker` -/
structure SignatureChecker where
  checkSig : Valtype → Valtype → CScript → Bool
  checkLockTime : Int → Bool
  checkColdStake : CScript → Bool

/-! ## Numbers -/

namespace ScriptNum

/-- The condition under which the constructor of `CScriptNum` rejects an encoding
as not minimal. -/
def notMinimal (vch : Valtype) : Bool :=
  match vch.reverse with
  | [] => false
  | [last] => last &&& 0x7f == 0
  | last :: second :: _ => last &&& 0x7f == 0 && second &&& 0x80 == 0

/-- `CScriptNum::set_vch` -/
def setVch (vch : Valtype) : Int :=
  match vch.getLast? with
  | none => 0
  | some last =>
    if last &&& 0x80 != 0 then -((fromLittleEndian vch : Int) - 0x80 * 256 ^ (vch.length - 1))
    else fromLittleEndian vch

/-- The constructor of `CScriptNum` from bytes, which throws. -/
def parse (vch : Valtype) (fRequireMinimal : Bool) (nMaxNumSize : Nat) : Except ScriptError Int :=
  if nMaxNumSize < vch.length then .error .unknownError
  else if fRequireMinimal && notMinimal vch then .error .unknownError
  else .ok (setVch vch)

/-- The loop of `CScriptNum::serialize` over the bytes of an unsigned 64-bit
number. -/
def absBytes : Nat → Nat → List UInt8
  | 0, _ => []
  | fuel + 1, absvalue =>
    if absvalue = 0 then [] else UInt8.ofNat absvalue :: absBytes fuel (absvalue / 256)

/-- `CScriptNum::serialize`, also `getvch`. -/
def serialize (value : Int) : Valtype :=
  let result := absBytes 8 value.natAbs
  match result.getLast? with
  | none => []
  | some last =>
    if last &&& 0x80 != 0 then result ++ [if value < 0 then 0x80 else 0]
    else if value < 0 then result.dropLast ++ [last ||| 0x80]
    else result

def getint (value : Int) : Int := max (-2 ^ 31) (min (2 ^ 31 - 1) value)

end ScriptNum

/-- The loop of `CastToBool`: some byte is not zero, a sign bit at the end apart. -/
def castToBool : Valtype → Bool
  | [] => false
  | [last] => last != 0 && last != 0x80
  | byte :: rest => byte != 0 || castToBool rest

def vchTrue : Valtype := [1]
def vchFalse : Valtype := []

/-- `fValue ? vchTrue : vchFalse` -/
def vchBool (fValue : Bool) : Valtype := if fValue then vchTrue else vchFalse

/-! ## Encodings -/

namespace Encoding

def isCompressedOrUncompressedPubKey (vchPubKey : Valtype) : Bool :=
  if vchPubKey.length < 33 then false
  else if vchPubKey[0]? = some 0x04 then vchPubKey.length = 65
  else if vchPubKey[0]? = some 0x02 ∨ vchPubKey[0]? = some 0x03 then vchPubKey.length = 33
  else false

def isValidSignatureEncoding (sig : Valtype) : Bool :=
  let byte (i : Nat) : Nat := (sig.getD i 0).toNat
  let lenR := byte 3
  let lenS := byte (5 + lenR)
  if sig.length < 9 then false
  else if 73 < sig.length then false
  else if byte 0 ≠ 0x30 then false
  else if byte 1 ≠ sig.length - 3 then false
  else if sig.length ≤ 5 + lenR then false
  else if lenR + lenS + 7 ≠ sig.length then false
  else if byte 2 ≠ 0x02 then false
  else if lenR = 0 then false
  else if 0x80 ≤ byte 4 then false
  else if 1 < lenR ∧ byte 4 = 0 ∧ ¬0x80 ≤ byte 5 then false
  else if byte (lenR + 4) ≠ 0x02 then false
  else if lenS = 0 then false
  else if 0x80 ≤ byte (lenR + 6) then false
  else if 1 < lenS ∧ byte (lenR + 6) = 0 ∧ ¬0x80 ≤ byte (lenR + 7) then false
  else true

def isDefinedHashtypeSignature (vchSig : Valtype) : Bool :=
  match vchSig.getLast? with
  | none => false
  | some last =>
    let nHashType := last &&& ~~~0x80
    !(nHashType < 1 || 3 < nHashType)

def checkSignatureEncoding (crypto : ScriptCrypto) (flags : ScriptFlags) (vchSig : Valtype) :
    Except ScriptError Unit :=
  if vchSig.isEmpty then .ok ()
  else if flags.has (.DERSIG ||| .LOW_S ||| .STRICTENC) && !isValidSignatureEncoding vchSig then
    .error .sigDer
  else if flags.has .LOW_S && !(isValidSignatureEncoding vchSig && crypto.checkLowS vchSig.dropLast)
    then .error (if isValidSignatureEncoding vchSig then .sigHighS else .sigDer)
  else if flags.has .STRICTENC && !isDefinedHashtypeSignature vchSig then .error .sigHashType
  else .ok ()

def checkPubKeyEncoding (flags : ScriptFlags) (vchPubKey : Valtype) : Except ScriptError Unit :=
  if flags.has .STRICTENC && !isCompressedOrUncompressedPubKey vchPubKey then .error .pubKeyType
  else .ok ()

def checkMinimalPush (data : Valtype) (opcode : UInt8) : Bool :=
  match data with
  | [] => opcode == 0
  | [byte] =>
    if 1 ≤ byte ∧ byte ≤ 16 then opcode == 0x51 + (byte - 1)
    else if byte = 0x81 then opcode == 0x4f
    else opcode == 1
  | _ =>
    if data.length ≤ 75 then opcode.toNat == data.length
    else if data.length ≤ 255 then opcode == 0x4c
    else if data.length ≤ 65535 then opcode == 0x4d
    else true

end Encoding

/-! ## Execution -/

/-- The variables of `EvalScript`. `pc` is what is left of the script and
`codeHash` the script from the last code separator on. -/
structure EvalState where
  stack : List Valtype
  altstack : List Valtype := []
  vfExec : List Bool := []
  nOpCount : Nat := 0
  pc : CScript
  codeHash : CScript

namespace EvalState

def withStack (state : EvalState) (stack : List Valtype) : EvalState :=
  { state with stack := stack }

end EvalState

namespace Interpreter

def moveStack : Instruction → List Valtype → Except ScriptError (List Valtype)
  | .drop2, _ :: _ :: rest => .ok rest
  | .dup2, x2 :: x1 :: rest => .ok (x2 :: x1 :: x2 :: x1 :: rest)
  | .dup3, x3 :: x2 :: x1 :: rest => .ok (x3 :: x2 :: x1 :: x3 :: x2 :: x1 :: rest)
  | .over2, x4 :: x3 :: x2 :: x1 :: rest => .ok (x2 :: x1 :: x4 :: x3 :: x2 :: x1 :: rest)
  | .rot2, x6 :: x5 :: x4 :: x3 :: x2 :: x1 :: rest =>
    .ok (x2 :: x1 :: x6 :: x5 :: x4 :: x3 :: rest)
  | .swap2, x4 :: x3 :: x2 :: x1 :: rest => .ok (x2 :: x1 :: x4 :: x3 :: rest)
  | .ifDup, x :: rest => .ok (if castToBool x then x :: x :: rest else x :: rest)
  | .depth, stack => .ok (ScriptNum.serialize stack.length :: stack)
  | .drop, _ :: rest => .ok rest
  | .dup, x :: rest => .ok (x :: x :: rest)
  | .nip, x2 :: _ :: rest => .ok (x2 :: rest)
  | .over, x2 :: x1 :: rest => .ok (x1 :: x2 :: x1 :: rest)
  | .rot, x3 :: x2 :: x1 :: rest => .ok (x1 :: x3 :: x2 :: rest)
  | .swap, x2 :: x1 :: rest => .ok (x1 :: x2 :: rest)
  | .tuck, x2 :: x1 :: rest => .ok (x2 :: x1 :: x2 :: rest)
  | .size, x :: rest => .ok (ScriptNum.serialize x.length :: x :: rest)
  | _, _ => .error .invalidStackOperation

/-- The results of the opcodes with one number. -/
def applyUnary (op : UnaryOp) (bn : Int) : Int :=
  match op with
  | .add1 => bn + 1
  | .sub1 => bn - 1
  | .negate => -bn
  | .abs => if bn < 0 then -bn else bn
  | .not => if bn = 0 then 1 else 0
  | .notEqual0 => if bn ≠ 0 then 1 else 0

/-- The results of the opcodes with two numbers. -/
def applyBinary (op : BinaryOp) (bn1 bn2 : Int) : Int :=
  match op with
  | .add => bn1 + bn2
  | .sub => bn1 - bn2
  | .boolAnd => if bn1 ≠ 0 ∧ bn2 ≠ 0 then 1 else 0
  | .boolOr => if bn1 ≠ 0 ∨ bn2 ≠ 0 then 1 else 0
  | .numEqual | .numEqualVerify => if bn1 = bn2 then 1 else 0
  | .numNotEqual => if bn1 ≠ bn2 then 1 else 0
  | .lessThan => if bn1 < bn2 then 1 else 0
  | .greaterThan => if bn1 > bn2 then 1 else 0
  | .lessThanOrEqual => if bn1 ≤ bn2 then 1 else 0
  | .greaterThanOrEqual => if bn1 ≥ bn2 then 1 else 0
  | .min => if bn1 < bn2 then bn1 else bn2
  | .max => if bn1 > bn2 then bn1 else bn2

/-- The `VERIFY` at the end of an opcode: the result is dropped when it is true. -/
def verifyTop (verify fValue : Bool) (error : ScriptError) (rest : List Valtype) :
    Except ScriptError (List Valtype) :=
  if verify then (if fValue then .ok rest else .error error) else .ok (vchBool fValue :: rest)

section

variable (crypto : ScriptCrypto) (checker : SignatureChecker) (flags : ScriptFlags)

/-- A number of default size, as `fRequireMinimal` demands. -/
def number (vch : Valtype) : Except ScriptError Int :=
  ScriptNum.parse vch (flags.has .MINIMALDATA) 4

/-- `OP_PICK` and `OP_ROLL` -/
def pick (roll : Bool) : List Valtype → Except ScriptError (List Valtype)
  | top :: x :: rest => do
    let n := ScriptNum.getint (← number flags top)
    let stack := x :: rest
    if n < 0 then .error .invalidStackOperation
    else
      match stack[n.toNat]? with
      | none => .error .invalidStackOperation
      | some vch => .ok (vch :: if roll then stack.eraseIdx n.toNat else stack)
  | _ => .error .invalidStackOperation

def unary (op : UnaryOp) : List Valtype → Except ScriptError (List Valtype)
  | x :: rest => do
    let bn ← number flags x
    .ok (ScriptNum.serialize (applyUnary op bn) :: rest)
  | _ => .error .invalidStackOperation

def binary (op : BinaryOp) : List Valtype → Except ScriptError (List Valtype)
  | x2 :: x1 :: rest => do
    let bn1 ← number flags x1
    let bn2 ← number flags x2
    let result := ScriptNum.serialize (applyBinary op bn1 bn2)
    if op = .numEqualVerify then (if castToBool result then .ok rest else .error .numEqualVerify)
    else .ok (result :: rest)
  | _ => .error .invalidStackOperation

/-- `OP_WITHIN` -/
def within : List Valtype → Except ScriptError (List Valtype)
  | x3 :: x2 :: x1 :: rest => do
    let bn1 ← number flags x1
    let bn2 ← number flags x2
    let bn3 ← number flags x3
    .ok (vchBool (bn2 ≤ bn1 ∧ bn1 < bn3) :: rest)
  | _ => .error .invalidStackOperation

def checkEncodings (vchSig vchPubKey : Valtype) : Except ScriptError Unit := do
  Encoding.checkSignatureEncoding crypto flags vchSig
  Encoding.checkPubKeyEncoding flags vchPubKey

/-- `OP_CHECKSIG` and `OP_CHECKSIGVERIFY` -/
def checkSig (verify : Bool) (codeHash : CScript) : List Valtype → Except ScriptError (List Valtype)
  | vchPubKey :: vchSig :: rest => do
    checkEncodings crypto flags vchSig vchPubKey
    let fSuccess := checker.checkSig vchSig vchPubKey
      (codeHash.findAndDelete (CScript.pushData vchSig))
    verifyTop verify fSuccess .checkSigVerify rest
  | _ => .error .invalidStackOperation

/-- The loop of `OP_CHECKMULTISIG` over the keys: whether every signature was
matched. There are never fewer keys than signatures left. -/
def matchSignatures (scriptCode : CScript) : List Valtype → List Valtype → Except ScriptError Bool
  | _, [] => .ok true
  | [], _ :: _ => .ok false
  | vchPubKey :: keys, vchSig :: sigs => do
    checkEncodings crypto flags vchSig vchPubKey
    let sigsLeft := if checker.checkSig vchSig vchPubKey scriptCode then sigs else vchSig :: sigs
    if keys.length < sigsLeft.length then .ok false
    else matchSignatures scriptCode keys sigsLeft

/-- `OP_CHECKMULTISIG` and `OP_CHECKMULTISIGVERIFY`, with the number of operations
counted. The stack holds, from the top, the number of keys, the keys, the number
of signatures, the signatures and a dummy element. -/
def checkMultiSig (verify : Bool) (nOpCount : Nat) (codeHash : CScript) :
    List Valtype → Except ScriptError (List Valtype × Nat)
  | keyCount :: afterCount => do
    let nKeysCount := ScriptNum.getint (← number flags keyCount)
    if nKeysCount < 0 ∨ 20 < nKeysCount then .error .pubKeyCount
    else
      let keys := nKeysCount.toNat
      if 201 < nOpCount + keys then .error .opCount
      else
        match afterCount.drop keys with
        | [] => .error .invalidStackOperation
        | sigCount :: afterKeys => do
          let nSigsCount := ScriptNum.getint (← number flags sigCount)
          if nSigsCount < 0 ∨ nKeysCount < nSigsCount then .error .sigCount
          else
            let sigs := afterKeys.take nSigsCount.toNat
            match afterKeys.drop nSigsCount.toNat with
            | [] => .error .invalidStackOperation
            | dummy :: rest => do
              let scriptCode := sigs.foldl
                (fun code vchSig => code.findAndDelete (CScript.pushData vchSig)) codeHash
              let fSuccess ← matchSignatures crypto checker flags scriptCode
                (afterCount.take keys) sigs
              if flags.has .NULLDUMMY && !dummy.isEmpty then .error .sigNullDummy
              else
                let stack ← verifyTop verify fSuccess .checkMultiSigVerify rest
                .ok (stack, nOpCount + keys)
  | _ => .error .invalidStackOperation

/-- `OP_CHECKLOCKTIMEVERIFY` -/
def checkLockTimeVerify (stack : List Valtype) : Except ScriptError Unit :=
  if !flags.has .CHECKLOCKTIMEVERIFY then
    (if flags.has .DISCOURAGE_UPGRADABLE_NOPS then .error .discourageUpgradableNops else .ok ())
  else
    match stack with
    | [] => .error .invalidStackOperation
    | top :: _ => do
      let nLockTime ← ScriptNum.parse top (flags.has .MINIMALDATA) 5
      if nLockTime < 0 then .error .negativeLockTime
      else if !checker.checkLockTime nLockTime then .error .unsatisfiedLockTime
      else .ok ()

/-- The `switch` of `EvalScript`. `fExec` tells whether the enclosing conditionals
are all taken; if not, only the conditionals themselves get here. -/
def execute (script : CScript) (fExec : Bool) (state : EvalState) :
    Instruction → Except ScriptError EvalState
  | .pushNumber value => .ok (state.withStack (ScriptNum.serialize value :: state.stack))
  | .nop => .ok state
  | .checkLockTimeVerify => do
    checkLockTimeVerify checker flags state.stack
    .ok state
  | .upgradableNop =>
    if flags.has .DISCOURAGE_UPGRADABLE_NOPS then .error .discourageUpgradableNops else .ok state
  | .ifOp negated =>
    if fExec then
      match state.stack with
      | [] => .error .unbalancedConditional
      | vch :: rest =>
        .ok { state with stack := rest, vfExec := (castToBool vch != negated) :: state.vfExec }
    else .ok { state with vfExec := false :: state.vfExec }
  | .elseOp =>
    match state.vfExec with
    | [] => .error .unbalancedConditional
    | last :: rest => .ok { state with vfExec := (!last) :: rest }
  | .endIf =>
    match state.vfExec with
    | [] => .error .unbalancedConditional
    | _ :: rest => .ok { state with vfExec := rest }
  | .verify =>
    match state.stack with
    | [] => .error .invalidStackOperation
    | vch :: rest => if castToBool vch then .ok (state.withStack rest) else .error .verify
  | .returnOp => .error .opReturn
  | .toAltStack =>
    match state.stack with
    | [] => .error .invalidStackOperation
    | vch :: rest => .ok { state with stack := rest, altstack := vch :: state.altstack }
  | .fromAltStack =>
    match state.altstack with
    | [] => .error .invalidAltStackOperation
    | vch :: rest => .ok { state with stack := vch :: state.stack, altstack := rest }
  | .pick roll => do .ok (state.withStack (← pick flags roll state.stack))
  | .equal verify =>
    match state.stack with
    | vch2 :: vch1 :: rest => do
      .ok (state.withStack (← verifyTop verify (vch1 == vch2) .equalVerify rest))
    | _ => .error .invalidStackOperation
  | .unary op => do .ok (state.withStack (← unary flags op state.stack))
  | .binary op => do .ok (state.withStack (← binary flags op state.stack))
  | .within => do .ok (state.withStack (← within flags state.stack))
  | .hash op =>
    match state.stack with
    | [] => .error .invalidStackOperation
    | vch :: rest => .ok (state.withStack (crypto.hash op vch :: rest))
  | .codeSeparator => .ok { state with codeHash := state.pc }
  | .checkSig verify => do
    .ok (state.withStack (← checkSig crypto checker flags verify state.codeHash state.stack))
  | .checkMultiSig verify => do
    let (stack, nOpCount) ← checkMultiSig crypto checker flags verify state.nOpCount
      state.codeHash state.stack
    .ok { state with stack := stack, nOpCount := nOpCount }
  | .checkColdStakeVerify =>
    if checker.checkColdStake script then .ok state else .error .checkColdStakeVerify
  | .badOpcode => .error .badOpcode
  | instruction => do .ok (state.withStack (← moveStack instruction state.stack))

def push (opcode : UInt8) (data : Valtype) (state : EvalState) : Except ScriptError EvalState :=
  if flags.has .MINIMALDATA && !Encoding.checkMinimalPush data opcode then .error .minimalData
  else .ok (state.withStack (data :: state.stack))

/-- A push, a branch of the `switch`, or nothing at all. -/
def dispatch (script : CScript) (opcode : UInt8) (data : Valtype) (state : EvalState) :
    Except ScriptError EvalState :=
  let fExec := !state.vfExec.contains false
  if fExec && opcode ≤ 0x4e then push flags opcode data state
  else if fExec || (0x63 ≤ opcode && opcode ≤ 0x68) then
    execute crypto checker flags script fExec state (.ofOpcode opcode)
  else .ok state

/-- One round of the loop of `EvalScript`. -/
def evalStep (script : CScript) (state : EvalState) : Except ScriptError EvalState :=
  match CScript.getOp state.pc with
  | none => .error .badOpcode
  | some (opcode, data, pc) =>
    let nOpCount := if 0x60 < opcode then state.nOpCount + 1 else state.nOpCount
    if 520 < data.length then .error .pushSize
    else if 0x60 < opcode ∧ 201 < nOpCount then .error .opCount
    else if disabledOpcodes.contains opcode then .error .disabledOpcode
    else do
      let next ← dispatch crypto checker flags script opcode data
        { state with pc := pc, nOpCount := nOpCount }
      if 1000 < next.stack.length + next.altstack.length then .error .stackSize else .ok next

/-- The loop of `EvalScript`; `fuel` bounds the number of instructions. -/
def evalLoop (script : CScript) : Nat → EvalState → Except ScriptError EvalState
  | fuel, state =>
    if state.pc.isEmpty then .ok state
    else
      match fuel with
      | 0 => .error .unknownError
      | fuel + 1 => do evalLoop script fuel (← evalStep crypto checker flags script state)

theorem execute_pc (script : CScript) (fExec : Bool) (state : EvalState)
    (instruction : Instruction) :
    Returns (fun next => next.pc = state.pc)
      (execute crypto checker flags script fExec state instruction) := by
  cases instruction with
  | pushNumber | nop | codeSeparator => exact .ok rfl
  | returnOp | badOpcode => exact .error _
  | upgradableNop => exact .choice (.error _) (.ok rfl)
  | checkColdStakeVerify => exact .choice (.ok rfl) (.error _)
  | ifOp negated =>
    refine .choice ?_ (.ok rfl)
    cases state.stack with
    | nil => exact .error _
    | cons => exact .ok rfl
  | elseOp | endIf =>
    simp only [execute.eq_def]
    cases state.vfExec with
    | nil => exact .error _
    | cons => exact .ok rfl
  | verify =>
    simp only [execute.eq_def]
    cases state.stack with
    | nil => exact .error _
    | cons => exact .choice (.ok rfl) (.error _)
  | toAltStack | hash =>
    simp only [execute.eq_def]
    cases state.stack with
    | nil => exact .error _
    | cons => exact .ok rfl
  | fromAltStack =>
    simp only [execute.eq_def]
    cases state.altstack with
    | nil => exact .error _
    | cons => exact .ok rfl
  | equal verify =>
    simp only [execute.eq_def]
    split
    · exact .bind (.any _) fun _ _ => .ok rfl
    · exact .error _
  | _ => exact .bind (.any _) fun _ _ => .ok rfl

theorem dispatch_pc (script : CScript) (opcode : UInt8) (data : Valtype) (state : EvalState) :
    Returns (fun next => next.pc = state.pc)
      (dispatch crypto checker flags script opcode data state) :=
  .choice (.choice (.error _) (.ok rfl))
    (.choice (execute_pc crypto checker flags script _ state _) (.ok rfl))

theorem exists_of_evalStep {script : CScript} {state next : EvalState}
    (ok : evalStep crypto checker flags script state = .ok next) :
    ∃ opcode data pc nOpCount, CScript.getOp state.pc = some (opcode, data, pc) ∧
      data.length ≤ 520 ∧
      dispatch crypto checker flags script opcode data
        { state with pc := pc, nOpCount := nOpCount } = .ok next ∧
      next.stack.length + next.altstack.length ≤ 1000 := by
  unfold evalStep at ok
  cases read : CScript.getOp state.pc with
  | none =>
    rw [read] at ok
    cases ok
  | some result =>
    obtain ⟨opcode, data, pc⟩ := result
    rw [read] at ok
    dsimp only at ok
    generalize (if 0x60 < opcode then state.nOpCount + 1 else state.nOpCount) = nOpCount
      at ok
    split_ifs at ok with long
    obtain ⟨reached, dispatched, counted⟩ := bind_eq_ok.mp ok
    split_ifs at counted with many
    cases counted
    exact ⟨opcode, data, pc, nOpCount, rfl, Nat.not_lt.mp long, dispatched, Nat.not_lt.mp many⟩

theorem evalStep_pc (script : CScript) (state : EvalState) :
    Returns (fun next => next.pc.length < state.pc.length)
      (evalStep crypto checker flags script state) := by
  intro next ok
  obtain ⟨opcode, data, pc, nOpCount, read, -, dispatched, -⟩ :=
    exists_of_evalStep crypto checker flags ok
  rw [dispatch_pc crypto checker flags script opcode data _ next dispatched]
  exact CScript.getOp_length read

/-- **The fuel is enough**: beyond the length of what is left of the script, more of it
changes nothing. -/
theorem evalLoop_fuel (script : CScript) {fuel more : Nat} (state : EvalState)
    (enough : state.pc.length ≤ fuel) (larger : fuel ≤ more) :
    evalLoop crypto checker flags script fuel state =
      evalLoop crypto checker flags script more state := by
  induction fuel generalizing more state with
  | zero =>
    have empty : state.pc.isEmpty = true := by
      rw [List.isEmpty_iff]
      exact List.eq_nil_of_length_eq_zero (by omega)
    unfold evalLoop
    rw [if_pos empty, if_pos empty]
  | succ fuel ih =>
    obtain ⟨others, rfl⟩ : ∃ others, more = others + 1 := ⟨more - 1, by omega⟩
    unfold evalLoop
    by_cases empty : state.pc.isEmpty = true
    · rw [if_pos empty, if_pos empty]
    · rw [if_neg empty, if_neg empty]
      cases stepped : evalStep crypto checker flags script state with
      | error reason => rfl
      | ok next =>
        have shorter := evalStep_pc crypto checker flags script state next stepped
        exact ih next (by omega) (by omega)

/-- `EvalScript`: the stack it leaves. A script has at most as many instructions
as bytes. -/
def evalScript (stack : List Valtype) (script : CScript) : Except ScriptError (List Valtype) :=
  if 10000 < script.length then .error .scriptSize
  else do
    let final ← evalLoop crypto checker flags script script.length
      { stack := stack, pc := script, codeHash := script }
    if final.vfExec.isEmpty then .ok final.stack else .error .unbalancedConditional

def checkResult : List Valtype → Except ScriptError Unit
  | [] => .error .evalFalse
  | top :: _ => if castToBool top then .ok () else .error .evalFalse

/-- `VerifyScript`. The assertion that the copy of the stack is not empty fails
with `unknownError`. -/
def verifyScript (scriptSig scriptPubKey : CScript) : Except ScriptError Unit :=
  if flags.has .SIGPUSHONLY && !scriptSig.isPushOnly then .error .sigPushOnly
  else do
    let stackCopy ← evalScript crypto checker flags [] scriptSig
    let stack ← evalScript crypto checker flags stackCopy scriptPubKey
    checkResult stack
    if flags.has .P2SH && scriptPubKey.isPayToScriptHash then
      if !scriptSig.isPushOnly then .error .sigPushOnly
      else
        match stackCopy with
        | [] => .error .unknownError
        | pubKey2 :: rest => do checkResult (← evalScript crypto checker flags rest pubKey2)
    else .ok ()

end

end Interpreter

end DogeCash
