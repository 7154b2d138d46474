import DogeCash.Foundation.Logged
import DogeCash.Script.Interpreter

/-! # The interpreter, access by access

`EvalScript` checks how many elements the stack has and then reads and removes them one at a
time. `stacktop`, `altstacktop` and `popstack` throw where there is no such element; whatever
is thrown inside the loop, also by `CScriptNum`, ends the run with one and the same error. Here
the accesses stand as in the code, and every call of `CheckSig` is logged. `Interpreter` says
what the same run does where all accesses are in range.
-/

namespace DogeCash

open ScriptNum (parse serialize getint)

/-- Why the interpreter stops early: an error that is set, an exception, or an assertion. The
loop of the model also stops where it runs out of fuel. -/
inductive ScriptExit where
  | error (serror : ScriptError)
  | scriptNumError
  | outOfRange
  | assertionFailed
  | outOfFuel

/-- `catch (...)` -/
def ScriptExit.caught : ScriptExit → ScriptExit
  | scriptNumError | outOfRange => error .unknownError
  | exit => exit

/-- A call of `BaseSignatureChecker::CheckSig`. -/
structure SigCall where
  vchSig : Valtype
  vchPubKey : Valtype
  scriptCode : CScript

/-- A run of the interpreter with the calls of `CheckSig` it makes. -/
abbrev Eval := Logged SigCall ScriptExit

namespace EvalScript

variable {α : Type}

/-- `return set_error(serror, ...)` -/
def setError (serror : ScriptError) : Eval α := .fail (.error serror)

/-- `if (stack.size() < size) return set_error(serror, ...)` -/
def requireSize (stack : List α) (size : ℕ)
    (serror : ScriptError := .invalidStackOperation) : Eval Unit :=
  if stack.length < size then setError serror else pure ()

/-- `if (!condition) return set_error(serror, ...)` -/
def check (condition : Bool) (serror : ScriptError) : Eval Unit :=
  if condition then pure () else setError serror

/-- `stacktop(-i)` and `altstacktop(-i)` -/
def stacktop (stack : List α) : ℕ → Eval α
  | 0 => .fail .outOfRange
  | i + 1 =>
    match stack[i]? with
    | some element => pure element
    | none => .fail .outOfRange

def popstack : List α → Eval (List α)
  | [] => .fail .outOfRange
  | _ :: rest => pure rest

/-- `while (times-- > 0) popstack(stack)` -/
def popTimes : ℕ → List α → Eval (List α)
  | 0, stack => pure stack
  | times + 1, stack => do popTimes times (← popstack stack)

/-- `stack.erase(stack.end() - first, stack.end() - last)` -/
def eraseTop (stack : List α) (first last : ℕ) : Eval (List α) :=
  if first ≤ stack.length then pure (stack.take last ++ stack.drop first)
  else .fail .outOfRange

/-- `stack.insert(stack.end() - i, element)` -/
def insertTop (stack : List α) (i : ℕ) (element : α) : Eval (List α) :=
  if i ≤ stack.length then pure (stack.take i ++ element :: stack.drop i)
  else .fail .outOfRange

/-- `swap(stacktop(-i), stacktop(-j))` -/
def swapTop (stack : List α) (i j : ℕ) : Eval (List α) := do
  let first ← stacktop stack i
  let second ← stacktop stack j
  pure ((stack.set (i - 1) second).set (j - 1) first)

/-- A `CScriptNum` from bytes. -/
def scriptNum (flags : ScriptFlags) (vch : Valtype) (nMaxNumSize : ℕ := 4) : Eval Int :=
  match parse vch (flags.has .MINIMALDATA) nMaxNumSize with
  | .ok value => pure value
  | .error _ => .fail .scriptNumError

def plain (computation : Except ScriptError α) : Eval α := .lift (computation.mapError .error)

/-- The end of an opcode with a result: it is pushed, and popped again by a `VERIFY`. -/
def pushResult (verify fValue : Bool) (serror : ScriptError) (stack : List Valtype) :
    Eval (List Valtype) :=
  let stack := vchBool fValue :: stack
  if verify then (if fValue then popstack stack else setError serror) else pure stack

def moveStack (instruction : Instruction) (stack : List Valtype) : Eval (List Valtype) :=
  match instruction with
  | .drop2 => do
    requireSize stack 2
    let stack ← popstack stack
    popstack stack
  | .dup2 => do
    requireSize stack 2
    let vch1 ← stacktop stack 2
    let vch2 ← stacktop stack 1
    pure (vch2 :: vch1 :: stack)
  | .dup3 => do
    requireSize stack 3
    let vch1 ← stacktop stack 3
    let vch2 ← stacktop stack 2
    let vch3 ← stacktop stack 1
    pure (vch3 :: vch2 :: vch1 :: stack)
  | .over2 => do
    requireSize stack 4
    let vch1 ← stacktop stack 4
    let vch2 ← stacktop stack 3
    pure (vch2 :: vch1 :: stack)
  | .rot2 => do
    requireSize stack 6
    let vch1 ← stacktop stack 6
    let vch2 ← stacktop stack 5
    let stack ← eraseTop stack 6 4
    pure (vch2 :: vch1 :: stack)
  | .swap2 => do
    requireSize stack 4
    let stack ← swapTop stack 4 2
    swapTop stack 3 1
  | .ifDup => do
    requireSize stack 1
    let vch ← stacktop stack 1
    pure (if castToBool vch then vch :: stack else stack)
  | .depth => pure (serialize stack.length :: stack)
  | .drop => do
    requireSize stack 1
    popstack stack
  | .dup => do
    requireSize stack 1
    let vch ← stacktop stack 1
    pure (vch :: stack)
  | .nip => do
    requireSize stack 2
    eraseTop stack 2 1
  | .over => do
    requireSize stack 2
    let vch ← stacktop stack 2
    pure (vch :: stack)
  | .rot => do
    requireSize stack 3
    let stack ← swapTop stack 3 2
    swapTop stack 2 1
  | .swap => do
    requireSize stack 2
    swapTop stack 2 1
  | .tuck => do
    requireSize stack 2
    let vch ← stacktop stack 1
    insertTop stack 2 vch
  | .size => do
    requireSize stack 1
    let vch ← stacktop stack 1
    pure (serialize vch.length :: stack)
  | _ => setError .invalidStackOperation

section

variable (crypto : ScriptCrypto) (checker : SignatureChecker) (flags : ScriptFlags)

/-- The element that `OP_ROLL` moves is taken out of the stack. -/
def takeOut (roll : Bool) (stack : List Valtype) (n : ℕ) : Eval (List Valtype) :=
  if roll then eraseTop stack (n + 1) n else pure stack

/-- `OP_PICK` and `OP_ROLL` -/
def pick (roll : Bool) (stack : List Valtype) : Eval (List Valtype) := do
  requireSize stack 2
  let n := getint (← scriptNum flags (← stacktop stack 1))
  let stack ← popstack stack
  check (0 ≤ n ∧ n < stack.length) .invalidStackOperation
  let vch ← stacktop stack (n.toNat + 1)
  let stack ← takeOut roll stack n.toNat
  pure (vch :: stack)

/-- `OP_EQUAL` and `OP_EQUALVERIFY` -/
def equal (verify : Bool) (stack : List Valtype) : Eval (List Valtype) := do
  requireSize stack 2
  let vch1 ← stacktop stack 2
  let vch2 ← stacktop stack 1
  let stack ← popstack stack
  let stack ← popstack stack
  pushResult verify (vch1 == vch2) .equalVerify stack

def unary (op : UnaryOp) (stack : List Valtype) : Eval (List Valtype) := do
  requireSize stack 1
  let bn ← scriptNum flags (← stacktop stack 1)
  let stack ← popstack stack
  pure (serialize (Interpreter.applyUnary op bn) :: stack)

/-- The `VERIFY` at the end of `OP_NUMEQUALVERIFY`. -/
def numEqualVerify (op : BinaryOp) (stack : List Valtype) : Eval (List Valtype) :=
  if op = .numEqualVerify then do
    let vch ← stacktop stack 1
    if castToBool vch then popstack stack else setError .numEqualVerify
  else pure stack

def binary (op : BinaryOp) (stack : List Valtype) : Eval (List Valtype) := do
  requireSize stack 2
  let bn1 ← scriptNum flags (← stacktop stack 2)
  let bn2 ← scriptNum flags (← stacktop stack 1)
  let stack ← popstack stack
  let stack ← popstack stack
  numEqualVerify op (serialize (Interpreter.applyBinary op bn1 bn2) :: stack)

/-- `OP_WITHIN` -/
def within (stack : List Valtype) : Eval (List Valtype) := do
  requireSize stack 3
  let bn1 ← scriptNum flags (← stacktop stack 3)
  let bn2 ← scriptNum flags (← stacktop stack 2)
  let bn3 ← scriptNum flags (← stacktop stack 1)
  let stack ← popstack stack
  let stack ← popstack stack
  let stack ← popstack stack
  pure (vchBool (bn2 ≤ bn1 ∧ bn1 < bn3) :: stack)

def hash (op : HashOp) (stack : List Valtype) : Eval (List Valtype) := do
  requireSize stack 1
  let vch ← stacktop stack 1
  let stack ← popstack stack
  pure (crypto.hash op vch :: stack)

/-- The checks of the encodings, and the call of `CheckSig`. -/
def callCheckSig (vchSig vchPubKey : Valtype) (scriptCode : CScript) : Eval Bool := do
  plain (Interpreter.checkEncodings crypto flags vchSig vchPubKey)
  .emit { vchSig := vchSig, vchPubKey := vchPubKey, scriptCode := scriptCode }
  pure (checker.checkSig vchSig vchPubKey scriptCode)

/-- `OP_CHECKSIG` and `OP_CHECKSIGVERIFY` -/
def checkSig (verify : Bool) (codeHash : CScript) (stack : List Valtype) : Eval (List Valtype) := do
  requireSize stack 2
  let vchSig ← stacktop stack 2
  let vchPubKey ← stacktop stack 1
  let fSuccess ← callCheckSig crypto checker flags vchSig vchPubKey
    (codeHash.findAndDelete (CScript.pushData vchSig))
  let stack ← popstack stack
  let stack ← popstack stack
  pushResult verify fSuccess .checkSigVerify stack

/-- The loop of `OP_CHECKMULTISIG` that drops the signatures from the script. -/
def dropSignatures (stack : List Valtype) : ℕ → ℕ → CScript → Eval CScript
  | 0, _, scriptCode => pure scriptCode
  | nSigsCount + 1, isig, scriptCode => do
    let vchSig ← stacktop stack isig
    dropSignatures stack nSigsCount (isig + 1)
      (scriptCode.findAndDelete (CScript.pushData vchSig))

/-- A round of the loop of `OP_CHECKMULTISIG` over the signatures. -/
def tryKey (stack : List Valtype) (scriptCode : CScript) (ikey isig : ℕ) : Eval Bool := do
  let vchSig ← stacktop stack isig
  let vchPubKey ← stacktop stack ikey
  callCheckSig crypto checker flags vchSig vchPubKey scriptCode

/-- The loop of `OP_CHECKMULTISIG` over the signatures, with the number of keys and of
signatures left, and where the next ones are. Without a key left the number of keys falls
below zero, and below the number of signatures. -/
def matchSignatures (stack : List Valtype) (scriptCode : CScript) : ℕ → ℕ → ℕ → ℕ → Eval Bool
  | _, 0, _, _ => pure true
  | 0, _ + 1, ikey, isig => do
    let _ ← tryKey crypto checker flags stack scriptCode ikey isig
    pure false
  | nKeysCount + 1, nSigsCount + 1, ikey, isig => do
    let fOk ← tryKey crypto checker flags stack scriptCode ikey isig
    let sigsLeft := if fOk then nSigsCount else nSigsCount + 1
    let isig := if fOk then isig + 1 else isig
    if nKeysCount < sigsLeft then pure false
    else matchSignatures stack scriptCode nKeysCount sigsLeft (ikey + 1) isig

/-- The dummy element has to be empty. -/
def checkNullDummy (stack : List Valtype) : Eval Unit :=
  if flags.has .NULLDUMMY then do
    let dummy ← stacktop stack 1
    check dummy.isEmpty .sigNullDummy
  else pure ()

/-- `OP_CHECKMULTISIG` once both numbers are known and it is known where the keys and the
signatures are. -/
def matchAndCleanUp (verify : Bool) (codeHash : CScript) (stack : List Valtype)
    (nKeysCount nSigsCount ikey isig : ℕ) : Eval (List Valtype) := do
  let i := isig + nSigsCount
  requireSize stack i
  let scriptCode ← dropSignatures stack nSigsCount isig codeHash
  let fSuccess ← matchSignatures crypto checker flags stack scriptCode nKeysCount nSigsCount
    ikey isig
  let stack ← popTimes (i - 1) stack
  requireSize stack 1
  checkNullDummy flags stack
  let stack ← popstack stack
  pushResult verify fSuccess .checkMultiSigVerify stack

/-- `OP_CHECKMULTISIG` and `OP_CHECKMULTISIGVERIFY`, with the number of operations counted. -/
def checkMultiSig (verify : Bool) (nOpCount : ℕ) (codeHash : CScript) (stack : List Valtype) :
    Eval (List Valtype × ℕ) := do
  requireSize stack 1
  let nKeysCount := getint (← scriptNum flags (← stacktop stack 1))
  check (0 ≤ nKeysCount ∧ nKeysCount ≤ 20) .pubKeyCount
  let nOpCount := nOpCount + nKeysCount.toNat
  check (nOpCount ≤ 201) .opCount
  let i := 2 + nKeysCount.toNat
  requireSize stack i
  let nSigsCount := getint (← scriptNum flags (← stacktop stack i))
  check (0 ≤ nSigsCount ∧ nSigsCount ≤ nKeysCount) .sigCount
  let stack ← matchAndCleanUp crypto checker flags verify codeHash stack nKeysCount.toNat
    nSigsCount.toNat 2 (i + 1)
  pure (stack, nOpCount)

/-- `OP_CHECKLOCKTIMEVERIFY` -/
def checkLockTimeVerify (stack : List Valtype) : Eval Unit :=
  if !flags.has .CHECKLOCKTIMEVERIFY then
    check (!flags.has .DISCOURAGE_UPGRADABLE_NOPS) .discourageUpgradableNops
  else do
    requireSize stack 1
    let nLockTime ← scriptNum flags (← stacktop stack 1) 5
    check (0 ≤ nLockTime) .negativeLockTime
    check (checker.checkLockTime nLockTime) .unsatisfiedLockTime

/-- `OP_IF` and `OP_NOTIF` inside the conditionals that are taken: the value of the condition
and the stack without it. -/
def ifValue (negated : Bool) (stack : List Valtype) : Eval (Bool × List Valtype) := do
  requireSize stack 1 .unbalancedConditional
  let vch ← stacktop stack 1
  let stack ← popstack stack
  pure (castToBool vch != negated, stack)

/-- `OP_VERIFY` -/
def verify (stack : List Valtype) : Eval (List Valtype) := do
  requireSize stack 1
  let vch ← stacktop stack 1
  if castToBool vch then popstack stack else setError .verify

/-- The `switch` of `EvalScript`. `fExec` tells whether the enclosing conditionals are all
taken; if not, only the conditionals themselves get here. -/
def execute (script : CScript) (fExec : Bool) (state : EvalState) : Instruction → Eval EvalState
  | .pushNumber value => pure (state.withStack (serialize value :: state.stack))
  | .nop => pure state
  | .checkLockTimeVerify => do
    checkLockTimeVerify checker flags state.stack
    pure state
  | .upgradableNop => do
    check (!flags.has .DISCOURAGE_UPGRADABLE_NOPS) .discourageUpgradableNops
    pure state
  | .ifOp negated =>
    if fExec then do
      let (fValue, stack) ← ifValue negated state.stack
      pure { state with stack := stack, vfExec := fValue :: state.vfExec }
    else pure { state with vfExec := false :: state.vfExec }
  | .elseOp => do
    requireSize state.vfExec 1 .unbalancedConditional
    let last ← stacktop state.vfExec 1
    pure { state with vfExec := state.vfExec.set 0 (!last) }
  | .endIf => do
    requireSize state.vfExec 1 .unbalancedConditional
    let vfExec ← popstack state.vfExec
    pure { state with vfExec := vfExec }
  | .verify => do pure (state.withStack (← verify state.stack))
  | .returnOp => setError .opReturn
  | .toAltStack => do
    requireSize state.stack 1
    let vch ← stacktop state.stack 1
    let stack ← popstack state.stack
    pure { state with stack := stack, altstack := vch :: state.altstack }
  | .fromAltStack => do
    requireSize state.altstack 1 .invalidAltStackOperation
    let vch ← stacktop state.altstack 1
    let altstack ← popstack state.altstack
    pure { state with stack := vch :: state.stack, altstack := altstack }
  | .pick roll => do pure (state.withStack (← pick flags roll state.stack))
  | .equal verify => do pure (state.withStack (← equal verify state.stack))
  | .unary op => do pure (state.withStack (← unary flags op state.stack))
  | .binary op => do pure (state.withStack (← binary flags op state.stack))
  | .within => do pure (state.withStack (← within flags state.stack))
  | .hash op => do pure (state.withStack (← hash crypto op state.stack))
  | .codeSeparator => pure { state with codeHash := state.pc }
  | .checkSig verify => do
    pure (state.withStack (← checkSig crypto checker flags verify state.codeHash state.stack))
  | .checkMultiSig verify => do
    let (stack, nOpCount) ← checkMultiSig crypto checker flags verify state.nOpCount
      state.codeHash state.stack
    pure { state with stack := stack, nOpCount := nOpCount }
  | .checkColdStakeVerify => do
    check (checker.checkColdStake script) .checkColdStakeVerify
    pure state
  | .badOpcode => setError .badOpcode
  | instruction => do pure (state.withStack (← moveStack instruction state.stack))

/-- A push, a branch of the `switch`, or nothing at all. -/
def dispatch (script : CScript) (opcode : UInt8) (data : Valtype) (state : EvalState) :
    Eval EvalState :=
  let fExec := !state.vfExec.contains false
  if fExec && opcode ≤ 0x4e then plain (Interpreter.push flags opcode data state)
  else if fExec || (0x63 ≤ opcode && opcode ≤ 0x68) then
    execute crypto checker flags script fExec state (.ofOpcode opcode)
  else pure state

def checkStackSize (state : EvalState) : Eval EvalState := do
  check (state.stack.length + state.altstack.length ≤ 1000) .stackSize
  pure state

/-- One round of the loop of `EvalScript`. -/
def evalStep (script : CScript) (state : EvalState) : Eval EvalState :=
  match CScript.getOp state.pc with
  | none => setError .badOpcode
  | some (opcode, data, pc) => do
    let nOpCount := if 0x60 < opcode then state.nOpCount + 1 else state.nOpCount
    check (data.length ≤ 520) .pushSize
    check (!(0x60 < opcode ∧ 201 < nOpCount)) .opCount
    check (!disabledOpcodes.contains opcode) .disabledOpcode
    let next ← dispatch crypto checker flags script opcode data
      { state with pc := pc, nOpCount := nOpCount }
    checkStackSize next

/-- The loop of `EvalScript`; `fuel` bounds the number of instructions. -/
def evalLoop (script : CScript) : ℕ → EvalState → Eval EvalState
  | fuel, state =>
    if state.pc.isEmpty then pure state
    else
      match fuel with
      | 0 => .fail .outOfFuel
      | fuel + 1 => do
        let next ← evalStep crypto checker flags script state
        evalLoop script fuel next

/-- The variables of `EvalScript` before the loop. -/
def initially (stack : List Valtype) (script : CScript) : EvalState :=
  { stack := stack, pc := script, codeHash := script }

/-- The `try` block of `EvalScript`. A script has at most as many instructions as bytes. -/
def evalTry (stack : List Valtype) (script : CScript) : Eval EvalState :=
  evalLoop crypto checker flags script script.length (initially stack script)

/-- `EvalScript`: the stack it leaves. -/
def evalScript (stack : List Valtype) (script : CScript) : Eval (List Valtype) := do
  check (script.length ≤ 10000) .scriptSize
  let final ← (evalTry crypto checker flags stack script).relabel id ScriptExit.caught
  check final.vfExec.isEmpty .unbalancedConditional
  pure final.stack

/-- The script that a run of `EvalScript` inside `VerifyScript` is about. -/
inductive ScriptRole where
  | scriptSig
  | scriptPubKey
  | redeemScript
  deriving DecidableEq

/-- A run of `VerifyScript`; each call of `CheckSig` comes from one of the scripts. -/
abbrev Verify := Logged (ScriptRole × SigCall) ScriptExit

/-- `EvalScript` inside `VerifyScript`. -/
def evalAs (role : ScriptRole) (stack : List Valtype) (script : CScript) : Verify (List Valtype) :=
  (evalScript crypto checker flags stack script).relabel (Prod.mk role) id

def checkResult (stack : List Valtype) : Verify Unit :=
  Logged.lift ((Interpreter.checkResult stack).mapError .error)

/-- The part of `VerifyScript` for pay-to-script-hash outputs, from the stack that `scriptSig`
has left. -/
def verifyRedeemScript (scriptSig : CScript) (stackCopy : List Valtype) : Verify Unit :=
  if !scriptSig.isPushOnly then .fail (.error .sigPushOnly)
  else
    match stackCopy with
    | [] => .fail .assertionFailed
    | pubKey2 :: stackCopy => do
      let stack ← evalAs crypto checker flags .redeemScript stackCopy pubKey2
      checkResult stack

def verifyScript (scriptSig scriptPubKey : CScript) : Verify Unit :=
  if flags.has .SIGPUSHONLY && !scriptSig.isPushOnly then .fail (.error .sigPushOnly)
  else do
    let stackCopy ← evalAs crypto checker flags .scriptSig [] scriptSig
    let stack ← evalAs crypto checker flags .scriptPubKey stackCopy scriptPubKey
    checkResult stack
    if flags.has .P2SH && scriptPubKey.isPayToScriptHash then
      verifyRedeemScript crypto checker flags scriptSig stackCopy
    else pure ()

end

end EvalScript

end DogeCash
