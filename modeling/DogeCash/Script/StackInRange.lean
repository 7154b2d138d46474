import DogeCash.Script.EvalScript

/-! # No access outside the stack

The checks of the sizes in front of every opcode are enough: the interpreter that makes every
access does what the interpreter does that takes the accesses for granted. It is stopped by an
exception only where a `CScriptNum` is not well formed.
-/

namespace DogeCash

open Interpreter (checkEncodings verifyTop)
open List (length_cons length_drop)

theorem ScriptNum.parse_eq_error {vch : Valtype} {fRequireMinimal : Bool} {nMaxNumSize : ℕ}
    {serror : ScriptError} (fails : parse vch fRequireMinimal nMaxNumSize = .error serror) :
    serror = .unknownError := by
  unfold parse at fails
  split at fails
  · cases fails
    rfl
  · split at fails
    · cases fails
      rfl
    · cases fails

namespace EvalScript

/-- How an exit of the interpreter that makes every access shows as an error of the other. -/
def Stops : ScriptExit → ScriptError → Prop
  | .error serror, other => serror = other ∧ serror ≠ .unknownError
  | .scriptNumError, other => other = .unknownError
  | _, _ => False

/-- The interpreter with accesses ends as the one without does. -/
def Follows {α : Type} (eval : Eval α) (computation : Except ScriptError α) : Prop :=
  Matches Stops eval.outcome computation

namespace Follows

variable {α β : Type} {eval : Eval α} {computation : Except ScriptError α}

@[simp] theorem pure_ok {value other : α} : Follows (pure value) (.ok other) ↔ value = other :=
  Matches.ok_ok

@[simp] theorem setError_error {serror other : ScriptError} :
    Follows (setError serror : Eval α) (.error other) ↔
      serror = other ∧ serror ≠ .unknownError := Matches.error_error

variable {serror : ScriptError}

theorem failing (known : serror ≠ .unknownError) :
    Follows (setError serror : Eval α) (.error serror) :=
  setError_error.mpr ⟨rfl, known⟩

/-- Two computations that follow each other step by step do so as a whole. -/
theorem bind {next : α → Eval β} {computationNext : α → Except ScriptError β}
    (start : Follows eval computation)
    (rest : ∀ value, Follows (next value) (computationNext value)) :
    Follows (eval >>= next) (computation >>= computationNext) := by
  unfold Follows
  rw [Logged.outcome_bind]
  exact Matches.bind start fun value _ => rest value

theorem choice {condition : Prop} [Decidable condition] {other : Eval α}
    {otherwise : Except ScriptError α} (holds : condition → Follows eval computation)
    (fails : ¬condition → Follows other otherwise) :
    Follows (if condition then eval else other) (if condition then computation else otherwise) := by
  by_cases decided : condition
  · rw [if_pos decided, if_pos decided]
    exact holds decided
  · rw [if_neg decided, if_neg decided]
    exact fails decided

theorem check_bind {condition : Bool} {contrary : Prop} [Decidable contrary] {next : Unit → Eval α}
    (opposite : contrary ↔ condition = false) (known : serror ≠ .unknownError)
    (rest : ¬contrary → Follows (next ()) computation) :
    Follows (check condition serror >>= next)
      (if contrary then .error serror else computation) := by
  cases condition with
  | false =>
    rw [if_pos (opposite.mpr rfl)]
    exact failing known
  | true =>
    have holds : ¬contrary := fun contra => absurd (opposite.mp contra) nofun
    rw [if_neg holds]
    exact rest holds

theorem plain (known : computation ≠ .error .unknownError) :
    Follows (EvalScript.plain computation) computation := by
  cases computation with
  | ok value => exact .ok value
  | error serror =>
    refine .error ⟨rfl, ?_⟩
    rintro rfl
    exact known rfl

theorem scriptNum (flags : ScriptFlags) (vch : Valtype) (nMaxNumSize : ℕ) :
    Follows (EvalScript.scriptNum flags vch nMaxNumSize)
      (ScriptNum.parse vch (flags.has .MINIMALDATA) nMaxNumSize) := by
  unfold EvalScript.scriptNum
  cases parsed : ScriptNum.parse vch (flags.has .MINIMALDATA) nMaxNumSize with
  | ok value => exact .ok value
  | error serror => exact .error (ScriptNum.parse_eq_error parsed)

end Follows

section Accesses

variable {α : Type} {stack : List α} {serror : ScriptError}

@[simp] theorem requireSize_pos {size : ℕ} (enough : size ≤ stack.length) :
    requireSize stack size serror = pure () := if_neg (Nat.not_lt.mpr enough)

@[simp] theorem requireSize_neg {size : ℕ} (few : stack.length < size) :
    requireSize stack size serror = setError serror := if_pos few

@[simp] theorem setError_bind {β : Type} (next : α → Eval β) :
    (setError serror >>= next) = setError serror := rfl

@[simp] theorem stacktop_one (element : α) : stacktop (element :: stack) 1 = pure element := rfl

@[simp] theorem stacktop_cons (element : α) (i : ℕ) :
    stacktop (element :: stack) (i + 2) = stacktop stack (i + 1) := rfl

theorem stacktop_of_getElem? {i : ℕ} {element : α} (there : stack[i]? = some element) :
    stacktop stack (i + 1) = pure element := by
  simp only [stacktop, there]

@[simp] theorem popstack_cons (element : α) : popstack (element :: stack) = pure stack := rfl

theorem popTimes_eq {times : ℕ} (enough : times ≤ stack.length) :
    popTimes times stack = pure (stack.drop times) := by
  induction times generalizing stack with
  | zero => rfl
  | succ times ih =>
    cases stack with
    | nil => cases enough
    | cons element rest => exact ih (Nat.le_of_succ_le_succ enough)

end Accesses

theorem moveStack_follows (instruction : Instruction) (stack : List Valtype) :
    Follows (moveStack instruction stack) (Interpreter.moveStack instruction stack) := by
  cases instruction with
  | depth => exact Follows.pure_ok.mpr rfl
  | ifDup | drop | dup | size =>
    rcases stack with _ | ⟨x, rest⟩
    all_goals simp [moveStack.eq_def, Interpreter.moveStack.eq_def]
  | drop2 | dup2 | nip | «over» | swap | tuck =>
    rcases stack with _ | ⟨x2, _ | ⟨x1, rest⟩⟩
    all_goals simp [moveStack.eq_def, Interpreter.moveStack.eq_def, eraseTop, insertTop, swapTop]
  | dup3 | rot =>
    rcases stack with _ | ⟨x3, _ | ⟨x2, _ | ⟨x1, rest⟩⟩⟩
    all_goals simp [moveStack.eq_def, Interpreter.moveStack.eq_def, swapTop]
  | over2 | swap2 =>
    rcases stack with _ | ⟨x4, _ | ⟨x3, _ | ⟨x2, _ | ⟨x1, rest⟩⟩⟩⟩
    all_goals simp [moveStack.eq_def, Interpreter.moveStack.eq_def, swapTop]
  | rot2 =>
    rcases stack with _ | ⟨x6, _ | ⟨x5, _ | ⟨x4, _ | ⟨x3, _ | ⟨x2, _ | ⟨x1, -⟩⟩⟩⟩⟩⟩
    all_goals simp [moveStack.eq_def, Interpreter.moveStack.eq_def, eraseTop]
  | _ =>
    exact Follows.failing nofun

theorem pushResult_follows (verify fValue : Bool) {serror : ScriptError} (stack : List Valtype)
    (known : serror ≠ .unknownError) :
    Follows (pushResult verify fValue serror stack)
      (verifyTop verify fValue serror stack) := by
  cases verify with
  | false => exact Follows.pure_ok.mpr rfl
  | true =>
    cases fValue with
    | false => exact Follows.failing known
    | true => exact Follows.pure_ok.mpr rfl

section

variable (crypto : ScriptCrypto) (checker : SignatureChecker) (flags : ScriptFlags)

theorem number_follows (vch : Valtype) :
    Follows (scriptNum flags vch) (Interpreter.number flags vch) := Follows.scriptNum flags vch 4

theorem pick_follows (roll : Bool) (stack : List Valtype) :
    Follows (pick flags roll stack) (Interpreter.pick flags roll stack) := by
  rcases stack with _ | ⟨top, _ | ⟨x, rest⟩⟩
  · exact Follows.failing nofun
  · exact Follows.failing nofun
  · apply Follows.bind (number_follows flags top)
    intro value
    set n := ScriptNum.getint value
    show Follows (check (0 ≤ n ∧ n < (x :: rest).length) .invalidStackOperation >>= _) _
    by_cases inside : 0 ≤ n ∧ n < (x :: rest).length
    · obtain ⟨k, same⟩ := Int.eq_ofNat_of_zero_le inside.1
      have less : k < (x :: rest).length := by omega
      have there : (x :: rest)[k]? = some (x :: rest)[k] := List.getElem?_eq_getElem less
      have erased : eraseTop (x :: rest) (k + 1) k = pure ((x :: rest).eraseIdx k) := by
        rw [eraseTop, if_pos (Nat.succ_le_of_lt less), List.eraseIdx_eq_take_drop_succ]
      rw [decide_eq_true inside, if_neg (by omega), same, Int.toNat_natCast, there]
      show Follows (stacktop (x :: rest) (k + 1) >>= _) _
      rw [stacktop_of_getElem? there]
      cases roll with
      | false => exact Follows.pure_ok.mpr rfl
      | true =>
        show Follows (eraseTop (x :: rest) (k + 1) k >>= _) _
        rw [erased]
        exact Follows.pure_ok.mpr rfl
    · rw [decide_eq_false inside]
      by_cases negative : n < 0
      · rw [if_pos negative]
        exact Follows.failing nofun
      · have outside : (x :: rest)[n.toNat]? = none := by
          rw [List.getElem?_eq_none_iff]
          omega
        rw [if_neg negative, outside]
        exact Follows.failing nofun

theorem equal_follows (verify : Bool) (stack : List Valtype) :
    Follows (equal verify stack)
      (match stack with
        | vch2 :: vch1 :: rest => verifyTop verify (vch1 == vch2) .equalVerify rest
        | _ => .error .invalidStackOperation) := by
  rcases stack with _ | ⟨vch2, _ | ⟨vch1, rest⟩⟩
  · exact Follows.failing nofun
  · exact Follows.failing nofun
  · exact pushResult_follows verify (vch1 == vch2) rest nofun

theorem unary_follows (op : UnaryOp) (stack : List Valtype) :
    Follows (unary flags op stack) (Interpreter.unary flags op stack) := by
  rcases stack with _ | ⟨x, -⟩
  · exact Follows.failing nofun
  · exact Follows.bind (number_follows flags x) fun bn => Follows.pure_ok.mpr rfl

theorem binary_follows (op : BinaryOp) (stack : List Valtype) :
    Follows (binary flags op stack) (Interpreter.binary flags op stack) := by
  rcases stack with _ | ⟨x2, _ | ⟨x1, -⟩⟩
  · exact Follows.failing nofun
  · exact Follows.failing nofun
  · apply Follows.bind (number_follows flags x1)
    intro bn1
    apply Follows.bind (number_follows flags x2)
    intro bn2
    refine Follows.choice (fun _ => ?_) fun _ => Follows.pure_ok.mpr rfl
    refine Follows.choice (fun _ => Follows.pure_ok.mpr rfl) fun _ => ?_
    exact Follows.failing nofun

theorem within_follows (stack : List Valtype) :
    Follows (within flags stack) (Interpreter.within flags stack) := by
  rcases stack with _ | ⟨x3, _ | ⟨x2, _ | ⟨x1, -⟩⟩⟩
  · exact Follows.failing nofun
  · exact Follows.failing nofun
  · exact Follows.failing nofun
  · apply Follows.bind (number_follows flags x1)
    intro bn1
    apply Follows.bind (number_follows flags x2)
    intro bn2
    apply Follows.bind (number_follows flags x3)
    intro bn3
    exact Follows.pure_ok.mpr rfl

theorem hash_follows (op : HashOp) (stack : List Valtype) :
    Follows (hash crypto op stack)
      (match stack with
        | [] => .error .invalidStackOperation
        | vch :: rest => .ok (crypto.hash op vch :: rest)) := by
  cases stack with
  | nil => exact Follows.failing nofun
  | cons vch rest => exact Follows.pure_ok.mpr rfl

theorem checkEncodings_ne (vchSig vchPubKey : Valtype) :
    checkEncodings crypto flags vchSig vchPubKey ≠ .error .unknownError := by
  intro fails
  rcases bind_eq_error.mp fails with signature | ⟨_, -, key⟩
  · unfold Encoding.checkSignatureEncoding at signature
    split_ifs at signature
    all_goals simp at signature
  · unfold Encoding.checkPubKeyEncoding at key
    split_ifs at key
    simp at key

variable {α : Type} {stack rest : List α} {position : ℕ} {element : α} {keyAt sigAt : ℕ}

/-- A call of `CheckSig`, and what comes after it. -/
theorem callCheckSig_bind {vchSig vchPubKey : Valtype} {scriptCode : CScript} {next : Bool → Eval α}
    {rest : Except ScriptError α}
    (later : Follows (next (checker.checkSig vchSig vchPubKey scriptCode)) rest) :
    Follows (callCheckSig crypto checker flags vchSig vchPubKey scriptCode >>= next) (do
      checkEncodings crypto flags vchSig vchPubKey
      rest) := by
  unfold callCheckSig
  rw [bind_assoc]
  exact Follows.bind (Follows.plain (checkEncodings_ne crypto flags vchSig vchPubKey))
    fun _ => later

theorem checkSig_follows (verify : Bool) (codeHash : CScript) (stack : List Valtype) :
    Follows (checkSig crypto checker flags verify codeHash stack)
      (Interpreter.checkSig crypto checker flags verify codeHash stack) := by
  rcases stack with _ | ⟨-, _ | ⟨-, rest⟩⟩
  · exact Follows.failing nofun
  · exact Follows.failing nofun
  · apply callCheckSig_bind
    exact pushResult_follows verify _ rest nofun

/-! ## The loops of `OP_CHECKMULTISIG` -/

theorem getElem?_of_drop (here : stack.drop position = element :: rest) :
    stack[position]? = some element := by
  rw [← Nat.add_zero position, ← List.getElem?_drop, here]
  rfl

theorem drop_succ_of_drop (here : stack.drop position = element :: rest) :
    stack.drop (position + 1) = rest := by
  rw [← List.drop_drop, here]
  rfl

theorem dropSignatures_eq {stack sigs after : List Valtype}
    (here : stack.drop position = sigs ++ after) (scriptCode : CScript) :
    dropSignatures stack sigs.length (position + 1) scriptCode =
      pure (sigs.foldl (fun code vchSig => code.findAndDelete (CScript.pushData vchSig))
        scriptCode) := by
  induction sigs generalizing position scriptCode with
  | nil => rfl
  | cons vchSig sigs ih =>
    rw [length_cons, dropSignatures, stacktop_of_getElem? (getElem?_of_drop here), pure_bind]
    exact ih (drop_succ_of_drop here) _

theorem matchSignatures_follows {stack keys sigs afterKeys afterSigs : List Valtype}
    (scriptCode : CScript) (keysHere : stack.drop keyAt = keys ++ afterKeys)
    (sigsHere : stack.drop sigAt = sigs ++ afterSigs) (fewer : sigs.length ≤ keys.length) :
    Follows (matchSignatures crypto checker flags stack scriptCode keys.length sigs.length
        (keyAt + 1) (sigAt + 1))
      (Interpreter.matchSignatures crypto checker flags scriptCode keys sigs) := by
  induction keys generalizing sigs keyAt sigAt with
  | nil =>
    rw [List.eq_nil_of_length_eq_zero (Nat.le_zero.mp fewer)]
    exact Follows.pure_ok.mpr rfl
  | cons vchPubKey keys ih =>
    cases sigs with
    | nil => exact Follows.pure_ok.mpr rfl
    | cons vchSig sigs =>
      have keysNext := drop_succ_of_drop keysHere
      have sigsNext := drop_succ_of_drop sigsHere
      rw [length_cons, length_cons, matchSignatures, tryKey,
        stacktop_of_getElem? (getElem?_of_drop sigsHere), pure_bind,
        stacktop_of_getElem? (getElem?_of_drop keysHere), pure_bind, Interpreter.matchSignatures]
      apply callCheckSig_bind
      cases checker.checkSig vchSig vchPubKey scriptCode with
      | false =>
        refine Follows.choice (fun _ => Follows.pure_ok.mpr rfl) fun enough => ?_
        exact ih keysNext sigsHere (Nat.not_lt.mp enough)
      | true =>
        refine Follows.choice (fun _ => Follows.pure_ok.mpr rfl) fun enough => ?_
        exact ih keysNext sigsNext (Nat.not_lt.mp enough)

theorem checkNullDummy_follows (dummy : Valtype) (rest : List Valtype) {next : Unit → Eval α}
    {computation : Except ScriptError α} (later : Follows (next ()) computation) :
    Follows (checkNullDummy flags (dummy :: rest) >>= next)
      (if flags.has .NULLDUMMY && !dummy.isEmpty then .error .sigNullDummy else computation) := by
  unfold checkNullDummy
  cases flags.has .NULLDUMMY with
  | false => exact later
  | true =>
    show Follows (check dummy.isEmpty .sigNullDummy >>= next) _
    exact Follows.check_bind (by simp) nofun fun _ => later

theorem matchAndCleanUp_follows (verify : Bool) (codeHash : CScript)
    {stack keys sigs afterKeys rest : List Valtype} {dummy : Valtype}
    (keysHere : stack.drop keyAt = keys ++ afterKeys)
    (sigsHere : stack.drop sigAt = sigs ++ dummy :: rest) (fewer : sigs.length ≤ keys.length)
    (nOpCount : ℕ) :
    Follows (matchAndCleanUp crypto checker flags verify codeHash stack keys.length sigs.length
        (keyAt + 1) (sigAt + 1) >>= fun stack => pure (stack, nOpCount))
      (do
        let fSuccess ← Interpreter.matchSignatures crypto checker flags
          (sigs.foldl (fun code vchSig => code.findAndDelete (CScript.pushData vchSig)) codeHash)
          keys sigs
        if flags.has .NULLDUMMY && !dummy.isEmpty then .error .sigNullDummy
        else do
          let stack ← verifyTop verify fSuccess .checkMultiSigVerify rest
          .ok (stack, nOpCount)) := by
  have size := congrArg List.length sigsHere
  rw [length_drop, List.length_append, length_cons] at size
  simp only [matchAndCleanUp, bind_assoc]
  rw [requireSize_pos (by omega), pure_bind, dropSignatures_eq sigsHere, pure_bind]
  apply Follows.bind (matchSignatures_follows crypto checker flags _ keysHere sigsHere fewer)
  intro fSuccess
  have left : stack.drop (sigAt + 1 + sigs.length - 1) = dummy :: rest := by
    rw [show sigAt + 1 + sigs.length - 1 = sigAt + sigs.length by omega, ← List.drop_drop,
      sigsHere, List.drop_left]
  rw [popTimes_eq (by omega), pure_bind, left]
  apply checkNullDummy_follows
  have known : ScriptError.checkMultiSigVerify ≠ .unknownError := nofun
  exact (pushResult_follows verify fSuccess rest known).bind fun _ => Follows.pure_ok.mpr rfl

theorem checkMultiSig_follows (verify : Bool) (nOpCount : ℕ) (codeHash : CScript)
    (stack : List Valtype) :
    Follows (checkMultiSig crypto checker flags verify nOpCount codeHash stack)
      (Interpreter.checkMultiSig crypto checker flags verify nOpCount codeHash stack) := by
  cases stack with
  | nil => exact Follows.failing nofun
  | cons keyCount afterCount =>
    apply Follows.bind (number_follows flags keyCount)
    intro value
    refine Follows.check_bind (by simp; omega) nofun fun inside => ?_
    refine Follows.check_bind (by simp) nofun fun _ => ?_
    set nKeys := (ScriptNum.getint value).toNat
    show Follows (requireSize (keyCount :: afterCount) (2 + nKeys) >>= _) _
    cases keysHere : afterCount.drop nKeys with
    | nil =>
      have few : afterCount.length ≤ nKeys := List.drop_eq_nil_iff.mp keysHere
      rw [requireSize_neg (by rw [length_cons]; omega)]
      exact Follows.failing nofun
    | cons sigCount afterKeys =>
      have counted : (keyCount :: afterCount).drop (nKeys + 1) = sigCount :: afterKeys := keysHere
      have keysSize := congrArg List.length keysHere
      rw [length_drop, length_cons] at keysSize
      rw [requireSize_pos (by rw [length_cons]; omega), pure_bind,
        show 2 + nKeys = nKeys + 1 + 1 by omega,
        stacktop_of_getElem? (getElem?_of_drop counted), pure_bind]
      apply Follows.bind (number_follows flags sigCount)
      intro sigValue
      refine Follows.check_bind (by simp; omega) nofun fun between => ?_
      set nSigs := (ScriptNum.getint sigValue).toNat
      have after := drop_succ_of_drop counted
      cases sigsHere : afterKeys.drop nSigs with
      | nil =>
        have few : afterKeys.length ≤ nSigs := List.drop_eq_nil_iff.mp sigsHere
        have short : (keyCount :: afterCount).length < nKeys + 1 + 1 + 1 + nSigs := by
          rw [length_cons]
          omega
        simp only [matchAndCleanUp, bind_assoc]
        rw [requireSize_neg short]
        exact Follows.failing nofun
      | cons dummy rest =>
        have sigsSize := congrArg List.length sigsHere
        rw [length_drop, length_cons] at sigsSize
        have keysLength : (afterCount.take nKeys).length = nKeys := by
          rw [List.length_take]
          omega
        have sigsLength : (afterKeys.take nSigs).length = nSigs := by
          rw [List.length_take]
          omega
        have keysSplit : (keyCount :: afterCount).drop 1 =
            afterCount.take nKeys ++ sigCount :: afterKeys := by
          rw [← keysHere, List.take_append_drop]
          rfl
        have sigsSplit : (keyCount :: afterCount).drop (nKeys + 1 + 1) =
            afterKeys.take nSigs ++ dummy :: rest := by
          rw [after, ← sigsHere, List.take_append_drop]
        have follows := matchAndCleanUp_follows crypto checker flags verify codeHash
          keysSplit sigsSplit (by omega) (nOpCount + nKeys)
        rw [keysLength, sigsLength] at follows
        exact follows

theorem push_ne (opcode : UInt8) (data : Valtype) (state : EvalState) :
    Interpreter.push flags opcode data state ≠ .error .unknownError := by
  unfold Interpreter.push
  split_ifs
  · simp
  · simp

theorem checkLockTimeVerify_follows (stack : List Valtype) :
    Follows (checkLockTimeVerify checker flags stack)
      (Interpreter.checkLockTimeVerify checker flags stack) := by
  refine Follows.choice (fun _ => ?_) fun _ => ?_
  · cases flags.has .DISCOURAGE_UPGRADABLE_NOPS with
    | false => exact Follows.pure_ok.mpr rfl
    | true => exact Follows.failing nofun
  · cases stack with
    | nil => exact Follows.failing nofun
    | cons top rest =>
      apply Follows.bind (Follows.scriptNum flags top 5)
      intro nLockTime
      refine Follows.check_bind (by simp) nofun fun _ => ?_
      cases checker.checkLockTime nLockTime with
      | false => exact Follows.failing nofun
      | true => exact Follows.pure_ok.mpr rfl

section

variable (script : CScript)
include script

theorem execute_follows (fExec : Bool) (state : EvalState) (instruction : Instruction) :
    Follows (execute crypto checker flags script fExec state instruction)
      (Interpreter.execute crypto checker flags script fExec state instruction) := by
  have onStack {eval : Eval (List Valtype)} {computation : Except ScriptError (List Valtype)}
      (follows : Follows eval computation) :
      Follows (eval >>= fun stack => pure (state.withStack stack))
        (computation >>= fun stack => .ok (state.withStack stack)) :=
    follows.bind fun _ => Follows.pure_ok.mpr rfl
  cases instruction with
  | pushNumber | nop | codeSeparator => exact Follows.pure_ok.mpr rfl
  | returnOp | badOpcode => exact Follows.failing (by decide)
  | checkLockTimeVerify =>
    exact (checkLockTimeVerify_follows checker flags state.stack).bind
      fun _ => Follows.pure_ok.mpr rfl
  | upgradableNop =>
    exact Follows.check_bind (by simp) (by decide) fun _ => Follows.pure_ok.mpr rfl
  | checkColdStakeVerify =>
    simp only [execute.eq_def, Interpreter.execute.eq_def]
    cases checker.checkColdStake script with
    | false => exact Follows.failing (by decide)
    | true => exact Follows.pure_ok.mpr rfl
  | ifOp negated =>
    refine Follows.choice (fun _ => ?_) fun _ => Follows.pure_ok.mpr rfl
    cases state.stack with
    | nil => exact Follows.failing (by decide)
    | cons vch rest => exact Follows.pure_ok.mpr rfl
  | elseOp | endIf =>
    simp only [execute.eq_def, Interpreter.execute.eq_def]
    cases state.vfExec with
    | nil => exact Follows.failing (by decide)
    | cons last rest => exact Follows.pure_ok.mpr rfl
  | verify =>
    simp only [execute.eq_def, Interpreter.execute.eq_def]
    cases state.stack with
    | nil => exact Follows.failing (by decide)
    | cons vch rest =>
      cases truth : castToBool vch with
      | false =>
        have fails : EvalScript.verify (vch :: rest) = setError .verify := by
          simp [EvalScript.verify, truth]
        show Follows _ (if castToBool vch then _ else _)
        rw [fails, truth]
        exact Follows.failing (by decide)
      | true => simp [EvalScript.verify, truth]
  | toAltStack =>
    simp only [execute.eq_def, Interpreter.execute.eq_def]
    cases state.stack with
    | nil => exact Follows.failing (by decide)
    | cons vch rest => exact Follows.pure_ok.mpr rfl
  | fromAltStack =>
    simp only [execute.eq_def, Interpreter.execute.eq_def]
    cases state.altstack with
    | nil => exact Follows.failing (by decide)
    | cons vch rest => exact Follows.pure_ok.mpr rfl
  | pick roll => exact onStack (pick_follows flags roll state.stack)
  | equal verify =>
    simp only [execute.eq_def, Interpreter.execute.eq_def]
    rcases state.stack with _ | ⟨vch2, _ | ⟨vch1, rest⟩⟩
    · exact onStack (equal_follows verify [])
    · exact onStack (equal_follows verify [vch2])
    · exact onStack (equal_follows verify (vch2 :: vch1 :: rest))
  | unary op => exact onStack (unary_follows flags op state.stack)
  | binary op => exact onStack (binary_follows flags op state.stack)
  | within => exact onStack (within_follows flags state.stack)
  | hash op =>
    simp only [execute.eq_def, Interpreter.execute.eq_def]
    cases state.stack with
    | nil => exact onStack (hash_follows crypto op [])
    | cons vch rest => exact onStack (hash_follows crypto op (vch :: rest))
  | checkSig verify =>
    exact onStack (checkSig_follows crypto checker flags verify state.codeHash state.stack)
  | checkMultiSig verify =>
    exact (checkMultiSig_follows crypto checker flags verify state.nOpCount state.codeHash
      state.stack).bind fun _ => Follows.pure_ok.mpr rfl
  | _ => exact onStack (moveStack_follows _ state.stack)

theorem dispatch_follows (opcode : UInt8) (data : Valtype) (state : EvalState) :
    Follows (dispatch crypto checker flags script opcode data state)
      (Interpreter.dispatch crypto checker flags script opcode data state) := by
  refine Follows.choice (fun _ => Follows.plain (push_ne flags opcode data state)) fun _ => ?_
  refine Follows.choice (fun _ => ?_) fun _ => Follows.pure_ok.mpr rfl
  exact execute_follows crypto checker flags script _ state _

theorem evalStep_follows (state : EvalState) :
    Follows (evalStep crypto checker flags script state)
      (Interpreter.evalStep crypto checker flags script state) := by
  unfold evalStep Interpreter.evalStep
  cases CScript.getOp state.pc with
  | none => exact Follows.failing nofun
  | some read =>
    obtain ⟨opcode, data, pc⟩ := read
    refine Follows.check_bind (by simp) nofun fun _ => ?_
    refine Follows.check_bind (by simp) nofun fun _ => ?_
    refine Follows.check_bind (by simp) nofun fun _ => ?_
    apply Follows.bind (dispatch_follows crypto checker flags script opcode data _)
    intro next
    exact Follows.check_bind (by simp) nofun fun _ => Follows.pure_ok.mpr rfl

theorem evalLoop_follows {fuel : ℕ} {state : EvalState} (enough : state.pc.length ≤ fuel) :
    Follows (evalLoop crypto checker flags script fuel state)
      (Interpreter.evalLoop crypto checker flags script fuel state) := by
  induction fuel generalizing state with
  | zero =>
    have empty : state.pc.isEmpty = true := by
      rw [List.isEmpty_iff]
      exact List.eq_nil_of_length_eq_zero (by omega)
    unfold evalLoop Interpreter.evalLoop
    rw [if_pos empty, if_pos empty]
    exact Follows.pure_ok.mpr rfl
  | succ fuel ih =>
    refine Follows.choice (fun _ => Follows.pure_ok.mpr rfl) fun _ => ?_
    unfold Follows
    rw [Logged.outcome_bind]
    apply Matches.bind (evalStep_follows crypto checker flags script state)
    intro next stepped
    have shorter := Interpreter.evalStep_pc crypto checker flags script state next stepped
    exact ih (by omega)

end

/-- **No access is out of range**: the `try` block ends as it does where the accesses are taken
for granted. -/
theorem evalTry_follows (stack : List Valtype) (script : CScript) :
    Follows (evalTry crypto checker flags stack script)
      (Interpreter.evalLoop crypto checker flags script script.length
        (initially stack script)) :=
  evalLoop_follows crypto checker flags script (Nat.le_refl _)

theorem evalScript_outcome (stack : List Valtype) (script : CScript) :
    (evalScript crypto checker flags stack script).outcome =
      (Interpreter.evalScript crypto checker flags stack script).mapError .error := by
  unfold evalScript Interpreter.evalScript
  by_cases long : 10000 < script.length
  · rw [if_pos long, decide_eq_false (Nat.not_le.mpr long)]
    rfl
  · rw [if_neg long, decide_eq_true (Nat.not_lt.mp long)]
    have follows := evalTry_follows crypto checker flags stack script
    unfold initially at follows
    generalize Interpreter.evalLoop crypto checker flags script script.length _ = plain at follows ⊢
    generalize evalTry crypto checker flags stack script = run at follows ⊢
    obtain ⟨outcome, log⟩ := run
    cases follows with
    | ok final =>
      show (check final.vfExec.isEmpty .unbalancedConditional >>= _).outcome = _
      show _ = (if final.vfExec.isEmpty then _ else _ : Except ScriptError _).mapError _
      cases final.vfExec.isEmpty with
      | false => rfl
      | true => rfl
    | @error exit serror same =>
      show Except.error exit.caught = Except.error (ScriptExit.error serror)
      cases exit with
      | error other => rw [same.1]; rfl
      | scriptNumError => rw [same]; rfl
      | outOfRange | assertionFailed | outOfFuel => cases same

end

end EvalScript

end DogeCash
