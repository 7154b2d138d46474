import DogeCash.Script.SigOps
import DogeCash.Script.StackLimits

/-! # Signature operations bound the signature checks

`GetSigOpCount` looks at the opcodes of a script without running it, and takes the opcode in
front of `OP_CHECKMULTISIG` for the number of keys. A run makes no more calls of `CheckSig` than
that: an `OP_1` to `OP_16` that is executed leaves its number on top of the stack, and it is
executed if the opcode behind it is, since only the conditionals decide what is executed.
-/

namespace DogeCash

open ScriptNum (getint parse serialize)
open UInt8 (le_iff_toNat_le toNat_inj toNat_ofNat)
open CScript (getSigOpCount opcodeSigOps)

def Instruction.signs : Instruction → Bool
  | checkSig _ | checkMultiSig _ => true
  | _ => false

theorem Instruction.signs_ofOpcode (opcode : UInt8) :
    (ofOpcode opcode).signs = true →
      opcode = 0xac ∨ opcode = 0xad ∨ opcode = 0xae ∨ opcode = 0xaf := by
  have checked : ∀ n < 256, (ofOpcode (UInt8.ofNat n)).signs = true →
      UInt8.ofNat n = 0xac ∨ UInt8.ofNat n = 0xad ∨ UInt8.ofNat n = 0xae ∨
        UInt8.ofNat n = 0xaf := by
    decide +kernel
  have this := checked opcode.toNat opcode.toNat_lt
  rwa [UInt8.ofNat_toNat] at this

namespace EvalScript

open Logged

section Silent

variable {α : Type} {stack : List α}

@[simp] theorem log_setError (serror : ScriptError) : (setError serror : Eval α).log = [] := rfl

@[simp] theorem log_requireSize (size : ℕ) (serror : ScriptError) :
    (requireSize stack size serror).log = [] := by
  unfold requireSize
  split
  · rfl
  · rfl

@[simp] theorem log_check (condition : Bool) (serror : ScriptError) :
    (check condition serror).log = [] := by
  cases condition with
  | false => rfl
  | true => rfl

@[simp] theorem log_stacktop (i : ℕ) : (stacktop stack i).log = [] := by
  cases i with
  | zero => rfl
  | succ i =>
    cases there : stack[i]? with
    | none => simp only [stacktop, there, log_fail]
    | some element => simp only [stacktop, there, log_pure]

@[simp] theorem log_popstack : (popstack stack).log = [] := by
  cases stack with
  | nil => rfl
  | cons element rest => rfl

@[simp] theorem log_popTimes (times : ℕ) : (popTimes times stack).log = [] := by
  induction times generalizing stack with
  | zero => rfl
  | succ times ih => simp [popTimes, ih]

@[simp] theorem log_eraseTop (first last : ℕ) : (eraseTop stack first last).log = [] := by
  unfold eraseTop
  split
  · rfl
  · rfl

@[simp] theorem log_insertTop (i : ℕ) (element : α) : (insertTop stack i element).log = [] := by
  unfold insertTop
  split
  · rfl
  · rfl

@[simp] theorem log_swapTop (i j : ℕ) : (swapTop stack i j).log = [] := by
  simp [swapTop]

@[simp] theorem log_scriptNum (flags : ScriptFlags) (vch : Valtype) (size : ℕ) :
    (scriptNum flags vch size).log = [] := by
  unfold scriptNum
  split
  · rfl
  · rfl

@[simp] theorem log_plain (computation : Except ScriptError α) : (plain computation).log = [] := rfl

@[simp] theorem log_pushResult (verify fValue : Bool) (serror : ScriptError)
    (stack : List Valtype) : (pushResult verify fValue serror stack).log = [] := by
  cases verify with
  | false => rfl
  | true =>
    cases fValue with
    | false => rfl
    | true => rfl

@[simp] theorem log_moveStack (instruction : Instruction) (stack : List Valtype) :
    (moveStack instruction stack).log = [] := by
  cases instruction
  all_goals simp [moveStack.eq_def]

end Silent

section

variable (crypto : ScriptCrypto) (checker : SignatureChecker) (flags : ScriptFlags)

@[simp] theorem log_dropSignatures (stack : List Valtype) (nSigsCount isig : ℕ)
    (scriptCode : CScript) : (dropSignatures stack nSigsCount isig scriptCode).log = [] := by
  induction nSigsCount generalizing isig scriptCode with
  | zero => rfl
  | succ nSigsCount ih => simp [dropSignatures, ih]

@[simp] theorem log_checkNullDummy (stack : List Valtype) :
    (checkNullDummy flags stack).log = [] := by
  unfold checkNullDummy
  split
  · simp
  · rfl

theorem execute_silent (script : CScript) (fExec : Bool) (state : EvalState)
    {instruction : Instruction} (other : instruction.signs = false) :
    (execute crypto checker flags script fExec state instruction).log = [] := by
  have onStack {eval : Eval (List Valtype)} (silent : eval.log = []) :
      (eval >>= fun stack => pure (state.withStack stack)).log = [] := by
    simp [silent]
  cases instruction with
  | checkSig | checkMultiSig => cases other
  | checkLockTimeVerify =>
    simp only [execute.eq_def, checkLockTimeVerify]
    split
    · simp
    · simp
  | ifOp negated =>
    simp only [execute.eq_def]
    split
    · simp [ifValue]
    · rfl
  | verify => simp [execute.eq_def, verify, apply_ite Logged.log]
  | pick roll => simp [execute.eq_def, pick, takeOut, apply_ite Logged.log]
  | binary op => simp [execute.eq_def, binary, numEqualVerify, apply_ite Logged.log]
  | pushNumber | nop | codeSeparator | returnOp | badOpcode => rfl
  | upgradableNop | elseOp | endIf | toAltStack | fromAltStack | checkColdStakeVerify =>
    simp [execute.eq_def]
  | equal | unary | within | hash => simp [execute.eq_def, equal, unary, within, hash]
  | _ => exact onStack (log_moveStack _ _)

theorem callCheckSig_atMost (vchSig vchPubKey : Valtype) (scriptCode : CScript) :
    AtMost 1 (callCheckSig crypto checker flags vchSig vchPubKey scriptCode) := by
  apply AtMost.bind_silent (log_plain _)
  intro _ _
  exact AtMost.silent_bind (AtMost.emit _) fun _ _ => rfl

theorem checkSig_atMost (verify : Bool) (codeHash : CScript) (stack : List Valtype) :
    AtMost 1 (checkSig crypto checker flags verify codeHash stack) := by
  apply AtMost.bind_silent (log_requireSize 2 _)
  intro _ _
  apply AtMost.bind_silent (log_stacktop 2)
  intro vchSig _
  apply AtMost.bind_silent (log_stacktop 1)
  intro vchPubKey _
  apply AtMost.silent_bind (callCheckSig_atMost crypto checker flags _ _ _)
  intro fSuccess _
  simp

theorem tryKey_atMost (stack : List Valtype) (scriptCode : CScript) (ikey isig : ℕ) :
    AtMost 1 (tryKey crypto checker flags stack scriptCode ikey isig) := by
  apply AtMost.bind_silent (log_stacktop isig)
  intro vchSig _
  apply AtMost.bind_silent (log_stacktop ikey)
  intro vchPubKey _
  exact callCheckSig_atMost crypto checker flags vchSig vchPubKey scriptCode

theorem matchSignatures_atMost (stack : List Valtype) (scriptCode : CScript)
    {nKeysCount nSigsCount : ℕ} (fewer : nSigsCount ≤ nKeysCount) (ikey isig : ℕ) :
    AtMost nKeysCount
      (matchSignatures crypto checker flags stack scriptCode nKeysCount nSigsCount ikey isig) := by
  induction nKeysCount generalizing nSigsCount ikey isig with
  | zero =>
    rw [Nat.le_zero.mp fewer]
    exact AtMost.pure 0 true
  | succ nKeysCount ih =>
    cases nSigsCount with
    | zero => exact AtMost.pure _ true
    | succ nSigsCount =>
      have rounds : AtMost (1 + nKeysCount) (matchSignatures crypto checker flags stack
          scriptCode (nKeysCount + 1) (nSigsCount + 1) ikey isig) := by
        apply AtMost.bind (tryKey_atMost crypto checker flags stack scriptCode ikey isig)
        intro fOk _
        apply AtMost.choice (fun _ => AtMost.pure _ false)
        exact fun enough => ih (Nat.not_lt.mp enough) _ _
      exact rounds.mono (Nat.le_of_eq (Nat.add_comm 1 nKeysCount))

theorem check_eq_ok {condition : Bool} {serror : ScriptError} {value : Unit}
    (ok : (check condition serror).outcome = .ok value) : condition = true := by
  cases condition with
  | true => rfl
  | false => cases ok

/-- `OP_CHECKMULTISIG` makes at most as many calls as there are keys, and there are at most
twenty. -/
theorem checkMultiSig_atMost {bound : ℕ} (verify : Bool) (nOpCount : ℕ) (codeHash : CScript)
    (stack : List Valtype)
    (keys : ∀ vch value, stack.head? = some vch → (scriptNum flags vch).outcome = .ok value →
      0 ≤ getint value → getint value ≤ 20 →
      (getint value).toNat ≤ bound) :
    AtMost bound (checkMultiSig crypto checker flags verify nOpCount codeHash stack) := by
  apply AtMost.bind_silent (log_requireSize 1 _)
  intro _ _
  apply AtMost.bind_silent (log_stacktop 1)
  intro vch top
  apply AtMost.bind_silent (log_scriptNum flags vch 4)
  intro value parsed
  apply AtMost.bind_silent (log_check _ _)
  intro _ inside
  have between := of_decide_eq_true (check_eq_ok inside)
  have few : (getint value).toNat ≤ bound := by
    cases stack with
    | nil => cases top
    | cons first rest =>
      cases top
      exact keys vch value rfl parsed between.1 between.2
  apply AtMost.bind_silent (log_check _ _)
  intro _ _
  apply AtMost.bind_silent (log_requireSize _ _)
  intro _ _
  apply AtMost.bind_silent (log_stacktop _)
  intro sigCount _
  apply AtMost.bind_silent (log_scriptNum flags sigCount 4)
  intro sigValue _
  apply AtMost.bind_silent (log_check _ _)
  intro _ fewer
  have ordered := of_decide_eq_true (check_eq_ok fewer)
  apply AtMost.silent_bind _ fun _ _ => rfl
  apply AtMost.bind_silent (log_requireSize _ _)
  intro _ _
  apply AtMost.bind_silent (log_dropSignatures _ _ _ _)
  intro scriptCode _
  refine AtMost.silent_bind (AtMost.mono (matchSignatures_atMost crypto checker flags stack
    scriptCode ?_ _ _) few) fun fSuccess _ => by simp
  omega

/-! ## The opcode in front -/

/-- After an `OP_1` to `OP_16` that was executed, its number is on top of the stack. -/
def NumberOnTop (lastOpcode : UInt8) (state : EvalState) : Prop :=
  0x51 ≤ lastOpcode → lastOpcode ≤ 0x60 → state.vfExec.contains false = false →
    state.stack.head? = some (serialize ((lastOpcode.toNat : Int) - 0x50))

variable {n : ℕ} {lastOpcode : UInt8}

theorem parse_serialize_small (least : 1 ≤ n) (most : n ≤ 16) (fRequireMinimal : Bool) :
    parse (serialize n) fRequireMinimal 4 = .ok (n : Int) := by
  have checked : ∀ k < 16, ∀ minimal : Bool,
      parse (serialize (k + 1 : ℕ)) minimal 4 = .ok ((k + 1 : ℕ) : Int) := by
    decide
  obtain ⟨k, rfl⟩ := Nat.exists_eq_add_of_le' least
  exact checked k (by omega) fRequireMinimal

theorem scriptNum_serialize_small (least : 1 ≤ n) (most : n ≤ 16) {value : Int}
    (parsed : (scriptNum flags (serialize n)).outcome = .ok value) : value = n := by
  unfold scriptNum at parsed
  rw [parse_serialize_small least most] at parsed
  cases parsed
  rfl

theorem checkMultiSig_counted (verify : Bool) (state : EvalState)
    (onTop : NumberOnTop lastOpcode state) (executed : state.vfExec.contains false = false) :
    AtMost (if 0x51 ≤ lastOpcode ∧ lastOpcode ≤ 0x60 then lastOpcode.toNat - 0x50 else 20)
      (checkMultiSig crypto checker flags verify state.nOpCount state.codeHash state.stack) := by
  apply checkMultiSig_atMost
  intro vch value top parsed least most
  split
  · rename_i small
    have low := le_iff_toNat_le.mp small.1
    have high := le_iff_toNat_le.mp small.2
    simp only [toNat_ofNat, Nat.reducePow, Nat.reduceMod] at low high
    have number := onTop small.1 small.2 executed
    rw [top, show (lastOpcode.toNat : Int) - 0x50 = ((lastOpcode.toNat - 0x50 : ℕ) : Int) by
      omega, Option.some.injEq] at number
    rw [number] at parsed
    have same := scriptNum_serialize_small flags (by omega) (by omega) parsed
    rw [same, getint]
    omega
  · omega

theorem execute_atMost (script : CScript) (state : EvalState) (opcode : UInt8)
    (onTop : NumberOnTop lastOpcode state) (executed : state.vfExec.contains false = false) :
    AtMost (opcodeSigOps true lastOpcode opcode)
      (execute crypto checker flags script true state (.ofOpcode opcode)) := by
  by_cases signs : (Instruction.ofOpcode opcode).signs = true
  · have once (verify : Bool) : AtMost 1
        (execute crypto checker flags script true state (.checkSig verify)) :=
      AtMost.silent_bind (checkSig_atMost crypto checker flags verify _ _) fun _ _ => rfl
    have often (verify : Bool) : AtMost
        (if 0x51 ≤ lastOpcode ∧ lastOpcode ≤ 0x60 then lastOpcode.toNat - 0x50 else 20)
        (execute crypto checker flags script true state (.checkMultiSig verify)) :=
      AtMost.silent_bind (checkMultiSig_counted crypto checker flags verify state onTop executed)
        fun _ _ => rfl
    rcases Instruction.signs_ofOpcode opcode signs with rfl | rfl | rfl | rfl
    · exact once false
    · exact once true
    · have counted : opcodeSigOps true lastOpcode 0xae = if 0x51 ≤ lastOpcode ∧
          lastOpcode ≤ 0x60 then lastOpcode.toNat - 0x50 else 20 := by
        simp [opcodeSigOps]
      rw [counted]
      exact often false
    · have counted : opcodeSigOps true lastOpcode 0xaf = if 0x51 ≤ lastOpcode ∧
          lastOpcode ≤ 0x60 then lastOpcode.toNat - 0x50 else 20 := by
        simp [opcodeSigOps]
      rw [counted]
      exact often true
  · exact AtMost.of_silent (execute_silent crypto checker flags script true state
      (Bool.eq_false_iff.mpr signs)) _

theorem dispatch_atMost (script : CScript) (opcode : UInt8) (data : Valtype) (state : EvalState)
    (onTop : NumberOnTop lastOpcode state) :
    AtMost (opcodeSigOps true lastOpcode opcode)
      (dispatch crypto checker flags script opcode data state) := by
  apply AtMost.choice (fun _ => AtMost.of_silent (log_plain _) _)
  intro _
  apply AtMost.choice _ fun _ => AtMost.pure _ _
  intro reached
  cases executed : state.vfExec.contains false with
  | false => exact execute_atMost crypto checker flags script state opcode onTop executed
  | true =>
    -- Only the conditionals get here, and they make no call.
    rw [executed] at reached
    simp only [Bool.not_true, Bool.false_or, Bool.and_eq_true, decide_eq_true_eq] at reached
    apply AtMost.of_silent
    apply execute_silent
    by_contra signs
    rcases Instruction.signs_ofOpcode opcode (Bool.eq_true_of_not_eq_false signs) with
      rfl | rfl | rfl | rfl
    all_goals exact absurd reached.2 (by decide)

theorem evalStep_atMost (script : CScript) {state : EvalState} {lastOpcode opcode : UInt8}
    {data : Valtype} {pc : CScript} (onTop : NumberOnTop lastOpcode state)
    (read : CScript.getOp state.pc = some (opcode, data, pc)) :
    AtMost (opcodeSigOps true lastOpcode opcode)
      (evalStep crypto checker flags script state) := by
  unfold evalStep
  rw [read]
  apply AtMost.bind_silent (log_check _ _)
  intro _ _
  apply AtMost.bind_silent (log_check _ _)
  intro _ _
  apply AtMost.bind_silent (log_check _ _)
  intro _ _
  apply AtMost.silent_bind _ fun next _ => by simp [checkStackSize]
  exact dispatch_atMost crypto checker flags script opcode data _ onTop

end

end EvalScript

namespace Interpreter

open EvalScript

section

variable (crypto : ScriptCrypto) (checker : SignatureChecker) (flags : ScriptFlags)

theorem ofOpcode_number {opcode : UInt8} (low : 0x51 ≤ opcode) (high : opcode ≤ 0x60) :
    Instruction.ofOpcode opcode = .pushNumber ((opcode.toNat : Int) - 0x50) :=
  if_pos (.inr ⟨low, high⟩)

theorem dispatch_numberOnTop (script : CScript) (opcode : UInt8) (data : Valtype)
    (state : EvalState) :
    Returns (NumberOnTop opcode) (dispatch crypto checker flags script opcode data state) := by
  by_cases number : 0x51 ≤ opcode ∧ opcode ≤ 0x60
  · have large : ¬opcode ≤ 0x4e := by
      have := le_iff_toNat_le.mp number.1
      rw [le_iff_toNat_le]
      simp only [toNat_ofNat, Nat.reducePow, Nat.reduceMod] at this ⊢
      omega
    have other : ¬0x63 ≤ opcode := by
      have := le_iff_toNat_le.mp number.2
      rw [le_iff_toNat_le]
      simp only [toNat_ofNat, Nat.reducePow, Nat.reduceMod] at this ⊢
      omega
    unfold dispatch
    rw [ofOpcode_number number.1 number.2]
    simp only [large, other, decide_false, Bool.and_false, Bool.false_and, Bool.or_false]
    cases executed : state.vfExec.contains false with
    | false => exact .ok fun _ _ _ => rfl
    | true =>
      refine .ok fun _ _ open_ => ?_
      rw [executed] at open_
      cases open_
  · intro next _ low high
    exact absurd ⟨low, high⟩ number

theorem evalStep_numberOnTop (script : CScript) {state : EvalState} {opcode : UInt8}
    {data : Valtype} {pc : CScript}
    (read : CScript.getOp state.pc = some (opcode, data, pc)) :
    Returns (fun next => next.pc = pc ∧ NumberOnTop opcode next)
      (evalStep crypto checker flags script state) := by
  intro next ok
  obtain ⟨_, _, _, nOpCount, same, -, dispatched, -⟩ := exists_of_evalStep crypto checker flags ok
  cases read.symm.trans same
  exact ⟨dispatch_pc crypto checker flags script opcode data _ next dispatched,
    dispatch_numberOnTop crypto checker flags script opcode data _ next dispatched⟩

end

end Interpreter

namespace EvalScript

open Logged

section

variable (crypto : ScriptCrypto) (checker : SignatureChecker) (flags : ScriptFlags)

theorem evalLoop_atMost (script : CScript) (fuel : ℕ) {lastOpcode : UInt8} {state : EvalState}
    (onTop : NumberOnTop lastOpcode state) :
    AtMost (CScript.countSigOps true fuel lastOpcode state.pc)
      (evalLoop crypto checker flags script fuel state) := by
  induction fuel generalizing lastOpcode state with
  | zero =>
    exact AtMost.choice (fun _ => AtMost.pure _ _) fun _ => AtMost.fail _ _
  | succ fuel ih =>
    apply AtMost.choice (fun _ => AtMost.pure _ _)
    intro _
    cases read : CScript.getOp state.pc with
    | none =>
      have stops : evalStep crypto checker flags script state = setError .badOpcode := by
        rw [evalStep, read]
      apply AtMost.of_silent
      show (_ >>= _ : Eval _).log = _
      rw [stops]
      rfl
    | some result =>
      rw [CScript.countSigOps_of_getOp read]
      apply AtMost.bind (evalStep_atMost crypto checker flags script onTop read)
      intro next step
      have follows := evalStep_follows crypto checker flags script state
      obtain ⟨rest, number⟩ := Interpreter.evalStep_numberOnTop crypto checker flags script
        read next (follows.ok_iff.mp step)
      rw [← rest]
      exact ih number

/-- **A run makes at most as many calls of `CheckSig` as `GetSigOpCount` counts.** -/
theorem evalScript_atMost (stack : List Valtype) (script : CScript) :
    AtMost (script.getSigOpCount true) (evalScript crypto checker flags stack script) := by
  have start : NumberOnTop 0xff (initially stack script) := fun _ high _ => absurd high (by decide)
  apply AtMost.bind_silent (log_check _ _)
  intro _ _
  apply AtMost.silent_bind
  · exact AtMost.relabel (evalLoop_atMost crypto checker flags script script.length start)
  · intro final _
    simp

/-! ## The script that is revealed -/

/-- The number of calls of `CheckSig` that `VerifyScript` makes from one of the scripts. -/
def callsOf {α : Type} (role : ScriptRole) (run : Verify α) : ℕ :=
  (run.select fun call => call.1 = role).log.length

end

end EvalScript

namespace CScript

theorem exists_lastPush {fuel : ℕ} {script : CScript} (data : Valtype)
    (pushes : isPushOnlyFrom fuel script = true) :
    ∃ last, lastPush fuel data script = some last := by
  induction fuel generalizing script data with
  | zero =>
    cases script with
    | nil => exact ⟨data, rfl⟩
    | cons => cases pushes
  | succ fuel ih =>
    cases script with
    | nil => exact ⟨data, rfl⟩
    | cons first rest =>
      rw [isPushOnlyFrom.eq_def] at pushes
      rw [lastPush.eq_def]
      simp only at pushes ⊢
      cases read : getOp (first :: rest) with
      | none =>
        rw [read] at pushes
        cases pushes
      | some result =>
        obtain ⟨opcode, pushed, left⟩ := result
        rw [read] at pushes
        simp only at pushes ⊢
        split at pushes
        · cases pushes
        · rename_i low
          rw [if_neg low]
          exact ih pushed pushes

end CScript

namespace Interpreter

section

variable (crypto : ScriptCrypto) (checker : SignatureChecker) (flags : ScriptFlags)

def LastOnTop (data : Valtype) (stack : List Valtype) : Prop :=
  ∀ top, stack.head? = some top → top = data ∨ getSigOpCount top true = 0

variable {opcode : UInt8} {state : EvalState}

theorem getSigOpCount_number (low : ¬opcode ≤ 0x4e) (high : ¬0x60 < opcode) :
    getSigOpCount (serialize ((opcode.toNat : Int) - 0x50)) true = 0 := by
  have checked : ∀ n < (97 : ℕ), 0x4e < n →
      getSigOpCount (serialize ((n : Int) - 0x50)) true = 0 := by
    decide
  rw [le_iff_toNat_le] at low
  rw [UInt8.lt_iff_toNat_lt] at high
  simp only [toNat_ofNat, Nat.reducePow, Nat.reduceMod] at low high
  exact checked opcode.toNat (by omega) (by omega)

theorem dispatch_push (script : CScript) (high : ¬0x60 < opcode) (data : Valtype)
    (state : EvalState) (outside : state.vfExec = []) :
    Returns (fun next => next.vfExec = [] ∧ LastOnTop data next.stack)
      (dispatch crypto checker flags script opcode data state) := by
  unfold dispatch
  rw [outside]
  by_cases low : opcode ≤ 0x4e
  · rw [if_pos (by simpa using low)]
    refine .choice (.error _) (.ok ⟨outside, fun top here => .inl ?_⟩)
    cases here
    rfl
  · rw [if_neg (by simpa using low), if_pos (by simp)]
    have number := getSigOpCount_number low high
    by_cases named : opcode = 0x4f ∨ (0x51 ≤ opcode ∧ opcode ≤ 0x60)
    · have pushes : Instruction.ofOpcode opcode = .pushNumber ((opcode.toNat : Int) - 0x50) :=
        if_pos named
      rw [pushes]
      refine .ok ⟨outside, fun top here => .inr ?_⟩
      cases here
      exact number
    · -- `OP_RESERVED` is no error for `IsPushOnly`, but it is when it is executed.
      have reserved : opcode = 0x50 := by
        apply toNat_inj.mp
        simp only [le_iff_toNat_le, UInt8.lt_iff_toNat_lt, ← toNat_inj,
          toNat_ofNat, Nat.reducePow, Nat.reduceMod] at low high named ⊢
        omega
      subst reserved
      exact .error _

theorem evalStep_push (script : CScript) {data : Valtype} {pc : CScript}
    (read : CScript.getOp state.pc = some (opcode, data, pc)) (high : ¬0x60 < opcode)
    (outside : state.vfExec = []) :
    Returns (fun next => next.pc = pc ∧ next.vfExec = [] ∧ LastOnTop data next.stack)
      (evalStep crypto checker flags script state) := by
  intro next ok
  obtain ⟨_, _, _, nOpCount, same, -, dispatched, -⟩ := exists_of_evalStep crypto checker flags ok
  cases read.symm.trans same
  exact ⟨dispatch_pc crypto checker flags script opcode data _ next dispatched,
    dispatch_push crypto checker flags script high data
      { state with pc := pc, nOpCount := nOpCount } outside next dispatched⟩

theorem evalLoop_lastPush (script : CScript) {fuel : ℕ} {data last : Valtype}
    (outside : state.vfExec = []) (onTop : LastOnTop data state.stack)
    (pushed : CScript.lastPush fuel data state.pc = some last) :
    Returns (fun final => LastOnTop last final.stack)
      (evalLoop crypto checker flags script fuel state) := by
  induction fuel generalizing data state with
  | zero =>
    unfold evalLoop
    cases rest : state.pc with
    | nil =>
      rw [rest] at pushed
      cases pushed
      exact .ok onTop
    | cons => exact .error _
  | succ fuel ih =>
    unfold evalLoop
    cases rest : state.pc with
    | nil =>
      rw [rest] at pushed
      cases pushed
      exact .ok onTop
    | cons first after =>
      rw [CScript.lastPush.eq_def, rest] at pushed
      simp only at pushed
      cases read : CScript.getOp (first :: after) with
      | none =>
        rw [read] at pushed
        cases pushed
      | some result =>
        rw [read] at pushed
        simp only at pushed
        split at pushed
        · cases pushed
        · rename_i high
          rw [← rest] at read
          refine .bind (evalStep_push crypto checker flags script read high outside) ?_
          intro state after
          obtain ⟨moved, still, top⟩ := after
          rw [← moved] at pushed
          exact ih still top pushed

theorem getSigOpCount_top {scriptPubKey scriptSig pubKey2 : CScript} {rest : List Valtype}
    (paysToScriptHash : scriptPubKey.isPayToScriptHash = true)
    (pushOnly : scriptSig.isPushOnly = true)
    (evaluated : evalScript crypto checker flags [] scriptSig = .ok (pubKey2 :: rest)) :
    getSigOpCount pubKey2 true ≤ scriptPubKey.getSigOpCountFor scriptSig := by
  obtain ⟨last, pushed⟩ := CScript.exists_lastPush [] pushOnly
  have counted : scriptPubKey.getSigOpCountFor scriptSig = getSigOpCount last true := by
    rw [CScript.getSigOpCountFor, if_neg (by rw [paysToScriptHash]; nofun), pushed]
  unfold evalScript at evaluated
  split at evaluated
  · cases evaluated
  · obtain ⟨final, ran, finished⟩ := bind_eq_ok.mp evaluated
    have outside : (EvalScript.initially [] scriptSig).vfExec = [] := rfl
    have onTop := evalLoop_lastPush crypto checker flags scriptSig outside nofun pushed final ran
    split at finished
    · rcases onTop pubKey2 (by rw [Except.ok.inj finished]; rfl) with same | none
      · rw [counted, same]
      · rw [none]
        exact Nat.zero_le _
    · cases finished

end

end Interpreter

namespace EvalScript

open Logged

section

variable (crypto : ScriptCrypto) (checker : SignatureChecker) (flags : ScriptFlags)

theorem log_select_evalAs_other {role other : ScriptRole} (ne : other ≠ role)
    (stack : List Valtype) (script : CScript) :
    ((evalAs crypto checker flags other stack script).select fun call => call.1 = role).log =
      [] := by
  show List.filter _ (List.map _ _) = []
  rw [List.filter_eq_nil_iff]
  intro call mem
  obtain ⟨-, -, rfl⟩ := List.mem_map.mp mem
  simpa using ne

theorem callsOf_evalAs (role : ScriptRole) (stack : List Valtype) (script : CScript) :
    callsOf role (evalAs crypto checker flags role stack script) ≤ script.getSigOpCount true := by
  refine Nat.le_trans (List.length_filter_le _ _) ?_
  show (List.map _ _).length ≤ _
  rw [List.length_map]
  exact evalScript_atMost crypto checker flags stack script

theorem callsOf_redeemScript {scriptSig scriptPubKey : CScript}
    (paysToScriptHash : scriptPubKey.isPayToScriptHash = true)
    (pushOnly : scriptSig.isPushOnly = true) :
    callsOf .redeemScript (verifyScript crypto checker flags scriptSig scriptPubKey) ≤
      scriptPubKey.getSigOpCountFor scriptSig := by
  show AtMost _ ((verifyScript crypto checker flags scriptSig scriptPubKey).select
    fun call => call.1 = .redeemScript)
  have signs : ScriptRole.scriptSig ≠ .redeemScript := nofun
  have pays : ScriptRole.scriptPubKey ≠ .redeemScript := nofun
  unfold verifyScript
  split
  · exact AtMost.fail _ _
  · rw [select_bind]
    apply AtMost.bind_silent (log_select_evalAs_other crypto checker flags signs _ _)
    intro stackCopy evaluated
    rw [select_bind]
    apply AtMost.bind_silent (log_select_evalAs_other crypto checker flags pays _ _)
    intro stack _
    rw [select_bind]
    apply AtMost.bind_silent rfl
    intro _ _
    split
    · unfold verifyRedeemScript
      split
      · exact AtMost.fail _ _
      · cases stackCopy with
        | nil => exact AtMost.fail _ _
        | cons pubKey2 rest =>
          have left : Interpreter.evalScript crypto checker flags [] scriptSig =
              .ok (pubKey2 :: rest) := by
            have ended : (evalAs crypto checker flags .scriptSig [] scriptSig).outcome =
              .ok (pubKey2 :: rest) := evaluated
            rw [evalAs_outcome] at ended
            exact mapError_eq_ok.mp ended
          rw [select_bind]
          apply AtMost.silent_bind _ fun _ _ => rfl
          exact Nat.le_trans (callsOf_evalAs crypto checker flags .redeemScript rest pubKey2)
            (Interpreter.getSigOpCount_top crypto checker flags paysToScriptHash pushOnly left)
    · exact AtMost.pure _ _

/-- **Signature operation counting bounds signature work.** A run of `EvalScript` makes at most
`GetSigOpCount(true)` calls of `CheckSig`, which is at most `GetSigOpCount(false)`; and of a
pay-to-script-hash output that is spent with pushes only, the redeem script makes at most
`GetSigOpCount(scriptSig)` calls. -/
theorem checkSig_calls_le_getSigOpCount :
    (∀ script stack,
      (evalScript crypto checker flags stack script).log.length ≤ script.getSigOpCount true ∧
      script.getSigOpCount true ≤ script.getSigOpCount false) ∧
    ∀ scriptSig scriptPubKey : CScript, scriptPubKey.isPayToScriptHash = true →
      scriptSig.isPushOnly = true →
      callsOf .redeemScript (verifyScript crypto checker flags scriptSig scriptPubKey) ≤
        scriptPubKey.getSigOpCountFor scriptSig := by
  refine ⟨fun script stack => ⟨?_, script.getSigOpCount_accurate_le⟩, ?_⟩
  · exact evalScript_atMost crypto checker flags stack script
  · intro scriptSig scriptPubKey paysToScriptHash pushOnly
    exact callsOf_redeemScript crypto checker flags paysToScriptHash pushOnly

end

def payToZeroHash : CScript := [0xa9, 0x14] ++ List.replicate 20 0 ++ [0x87]

/-- The redeem script is `OP_CHECKSIG`. -/
theorem checkSig_calls_le_getSigOpCount_one :
    callsOf .redeemScript (verifyScript blankDigests noSignatures .P2SH [1, 0xac] payToZeroHash) ≤
      payToZeroHash.getSigOpCountFor [1, 0xac] :=
  (checkSig_calls_le_getSigOpCount blankDigests noSignatures .P2SH).2 [1, 0xac] payToZeroHash
    (by decide) (by decide)

end EvalScript

end DogeCash
