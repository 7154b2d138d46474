import DogeCash.Script.StackInRange

/-! # The limits of the stack

What an opcode puts on the stack was on one of the stacks before, is a number or a truth value,
or is a hash; what a push puts there has been measured. The elements stay within 520 bytes, and
the check at the end of every round keeps both stacks together within 1000 elements.
-/

namespace DogeCash

open ScriptNum (getint)

def HashOp.digestSize : HashOp → ℕ
  | ripemd160 | sha1 | hash160 => 20
  | sha256 | hash256 => 32

def ScriptCrypto.FillsDigests (crypto : ScriptCrypto) : Prop :=
  ∀ op vch, (crypto.hash op vch).length = op.digestSize

theorem HashOp.digestSize_le (op : HashOp) : op.digestSize ≤ 32 := by
  cases op with
  | ripemd160 | sha1 | hash160 => exact Nat.le_of_ble_eq_true rfl
  | sha256 | hash256 => exact Nat.le_refl 32

namespace ScriptNum

theorem absBytes_length (fuel absvalue : ℕ) : (absBytes fuel absvalue).length ≤ fuel := by
  induction fuel generalizing absvalue with
  | zero => exact Nat.le_refl 0
  | succ fuel ih =>
    unfold absBytes
    split
    · exact Nat.zero_le _
    · exact Nat.succ_le_succ (ih _)

theorem serialize_length (value : Int) : (serialize value).length ≤ 9 := by
  have bytes := absBytes_length 8 value.natAbs
  unfold serialize
  simp only
  split
  · exact Nat.zero_le 9
  · split
    · simp only [List.length_append, List.length_singleton]
      omega
    · split
      · simp only [List.length_append, List.length_singleton, List.length_dropLast]
        omega
      · omega

end ScriptNum

namespace Interpreter

def AllSmall (stack : List Valtype) : Prop := ∀ vch ∈ stack, vch.length ≤ 520

@[simp] theorem allSmall_nil : AllSmall [] := fun _ mem => (by cases mem)

variable {stack : List Valtype}

@[simp] theorem allSmall_cons {vch : Valtype} :
    AllSmall (vch :: stack) ↔ vch.length ≤ 520 ∧ AllSmall stack := List.forall_mem_cons

theorem AllSmall.of_subset {stack other : List Valtype} (small : AllSmall stack)
    (subset : other ⊆ stack) : AllSmall other := fun vch mem => small vch (subset mem)

theorem serialize_small (value : Int) : (ScriptNum.serialize value).length ≤ 520 :=
  Nat.le_trans (ScriptNum.serialize_length value) (by omega)

theorem vchBool_small (fValue : Bool) : (vchBool fValue).length ≤ 520 := by
  cases fValue with
  | false => exact Nat.zero_le 520
  | true => exact Nat.le_of_ble_eq_true rfl

theorem moveStack_small (instruction : Instruction) (small : AllSmall stack) :
    Returns AllSmall (moveStack instruction stack) := by
  cases instruction with
  | drop2 | dup2 | dup3 | over2 | rot2 | swap2 | ifDup | depth | drop | dup | nip | «over» | rot
  | swap | tuck | size =>
    rcases stack with _ | ⟨x6, _ | ⟨x5, _ | ⟨x4, _ | ⟨x3, _ | ⟨x2, _ | ⟨x1, rest⟩⟩⟩⟩⟩⟩
    all_goals first
      | exact .error _
      | refine .ok ?_
        simp_all [serialize_small, apply_ite AllSmall]
  | _ => exact .error _

theorem verifyTop_small (verify fValue : Bool) (serror : ScriptError) {rest : List Valtype}
    (small : AllSmall rest) : Returns AllSmall (verifyTop verify fValue serror rest) := by
  refine .choice (.choice (.ok small) (.error _)) (.ok ?_)
  exact allSmall_cons.mpr ⟨vchBool_small fValue, small⟩

section

variable (crypto : ScriptCrypto) (checker : SignatureChecker) (flags : ScriptFlags)
  {stack : List Valtype}

theorem pick_small (roll : Bool) (small : AllSmall stack) :
    Returns AllSmall (pick flags roll stack) := by
  rcases stack with _ | ⟨top, _ | ⟨x, rest⟩⟩
  · exact .error _
  · exact .error _
  · refine .bind (.any _) fun value _ => .choice (.error _) ?_
    have below : AllSmall (x :: rest) := (allSmall_cons.mp small).2
    cases found : (x :: rest)[(getint value).toNat]? with
    | none => exact .error _
    | some vch =>
      refine .ok (allSmall_cons.mpr ⟨below vch (List.mem_of_getElem? found), ?_⟩)
      cases roll with
      | false => exact below
      | true => exact below.of_subset (List.eraseIdx_subset)

theorem unary_small (op : UnaryOp) (small : AllSmall stack) :
    Returns AllSmall (unary flags op stack) := by
  cases stack with
  | nil => exact .error _
  | cons x rest =>
    refine .bind (.any _) fun bn _ => .ok ?_
    exact allSmall_cons.mpr ⟨serialize_small _, (allSmall_cons.mp small).2⟩

theorem binary_small (op : BinaryOp) (small : AllSmall stack) :
    Returns AllSmall (binary flags op stack) := by
  rcases stack with _ | ⟨x2, _ | ⟨x1, rest⟩⟩
  · exact .error _
  · exact .error _
  · simp only [allSmall_cons] at small
    refine .bind (.any _) fun bn1 _ => .bind (.any _) fun bn2 _ => ?_
    refine .choice (.choice (.ok small.2.2) (.error _)) (.ok ?_)
    exact allSmall_cons.mpr ⟨serialize_small _, small.2.2⟩

theorem within_small (small : AllSmall stack) : Returns AllSmall (within flags stack) := by
  rcases stack with _ | ⟨x3, _ | ⟨x2, _ | ⟨x1, rest⟩⟩⟩
  · exact .error _
  · exact .error _
  · exact .error _
  · simp only [allSmall_cons] at small
    refine .bind (.any _) fun bn1 _ => .bind (.any _) fun bn2 _ => .bind (.any _) fun bn3 _ => ?_
    exact .ok (allSmall_cons.mpr ⟨vchBool_small _, small.2.2.2⟩)

theorem checkSig_small (verify : Bool) (codeHash : CScript) (small : AllSmall stack) :
    Returns AllSmall (checkSig crypto checker flags verify codeHash stack) := by
  rcases stack with _ | ⟨vchPubKey, _ | ⟨vchSig, rest⟩⟩
  · exact .error _
  · exact .error _
  · simp only [allSmall_cons] at small
    exact .bind (.any _) fun _ _ => verifyTop_small verify _ _ small.2.2

theorem checkMultiSig_small (verify : Bool) (nOpCount : ℕ) (codeHash : CScript)
    (small : AllSmall stack) :
    Returns (fun result => AllSmall result.1)
      (checkMultiSig crypto checker flags verify nOpCount codeHash stack) := by
  cases stack with
  | nil => exact .error _
  | cons keyCount afterCount =>
    have below := (allSmall_cons.mp small).2
    refine .bind (.any _) fun nKeysCount _ => .choice (.error _) (.choice (.error _) ?_)
    cases keysHere : afterCount.drop (getint nKeysCount).toNat with
    | nil => exact .error _
    | cons sigCount afterKeys =>
      refine .bind (.any _) fun nSigsCount _ => .choice (.error _) ?_
      cases sigsHere : afterKeys.drop (getint nSigsCount).toNat with
      | nil => exact .error _
      | cons dummy rest =>
        have inside : rest ⊆ afterCount := by
          intro vch mem
          apply List.mem_of_mem_drop (i := (getint nKeysCount).toNat)
          rw [keysHere]
          apply List.mem_cons_of_mem
          apply List.mem_of_mem_drop (i := (getint nSigsCount).toNat)
          rw [sigsHere]
          exact List.mem_cons_of_mem _ mem
        refine .bind (.any _) fun fSuccess _ => .choice (.error _) ?_
        refine .bind (verifyTop_small verify fSuccess _ (below.of_subset inside)) ?_
        exact fun result kept => .ok kept

/-- The elements of both stacks have at most 520 bytes. -/
structure KeepsSmall (state : EvalState) : Prop where
  stack : AllSmall state.stack
  altstack : AllSmall state.altstack

variable {state : EvalState}

theorem execute_small (fills : crypto.FillsDigests) (script : CScript) (fExec : Bool)
    (small : KeepsSmall state) (instruction : Instruction) :
    Returns KeepsSmall (execute crypto checker flags script fExec state instruction) := by
  have onStack {computation : Except ScriptError (List Valtype)}
      (kept : Returns AllSmall computation) :
      Returns KeepsSmall (computation >>= fun stack => .ok (state.withStack stack)) :=
    kept.bind fun stack below => .ok ⟨below, small.altstack⟩
  cases instruction with
  | pushNumber value =>
    exact .ok ⟨allSmall_cons.mpr ⟨serialize_small value, small.stack⟩, small.altstack⟩
  | nop => exact .ok small
  | codeSeparator => exact .ok ⟨small.stack, small.altstack⟩
  | returnOp | badOpcode => exact .error _
  | checkLockTimeVerify => exact .bind (.any _) fun _ _ => .ok small
  | upgradableNop => exact .choice (.error _) (.ok small)
  | checkColdStakeVerify => exact .choice (.ok small) (.error _)
  | ifOp negated =>
    refine .choice ?_ (.ok ⟨small.stack, small.altstack⟩)
    cases here : state.stack with
    | nil => exact .error _
    | cons vch rest =>
      have below := small.stack
      rw [here, allSmall_cons] at below
      exact .ok ⟨below.2, small.altstack⟩
  | elseOp | endIf =>
    simp only [execute.eq_def]
    cases state.vfExec with
    | nil => exact .error _
    | cons last rest => exact .ok ⟨small.stack, small.altstack⟩
  | verify =>
    simp only [execute.eq_def]
    cases here : state.stack with
    | nil => exact .error _
    | cons vch rest =>
      have below := small.stack
      rw [here, allSmall_cons] at below
      exact .choice (.ok ⟨below.2, small.altstack⟩) (.error _)
  | toAltStack =>
    simp only [execute.eq_def]
    cases here : state.stack with
    | nil => exact .error _
    | cons vch rest =>
      have below := small.stack
      rw [here, allSmall_cons] at below
      exact .ok ⟨below.2, allSmall_cons.mpr ⟨below.1, small.altstack⟩⟩
  | fromAltStack =>
    simp only [execute.eq_def]
    cases here : state.altstack with
    | nil => exact .error _
    | cons vch rest =>
      have below := small.altstack
      rw [here, allSmall_cons] at below
      exact .ok ⟨allSmall_cons.mpr ⟨below.1, small.stack⟩, below.2⟩
  | pick roll => exact onStack (pick_small flags roll small.stack)
  | equal verify =>
    simp only [execute.eq_def]
    rcases here : state.stack with _ | ⟨vch2, _ | ⟨vch1, rest⟩⟩
    · exact .error _
    · exact .error _
    · have below := small.stack
      rw [here, allSmall_cons, allSmall_cons] at below
      exact onStack (verifyTop_small verify _ _ below.2.2)
  | unary op => exact onStack (unary_small flags op small.stack)
  | binary op => exact onStack (binary_small flags op small.stack)
  | within => exact onStack (within_small flags small.stack)
  | hash op =>
    simp only [execute.eq_def]
    cases here : state.stack with
    | nil => exact .error _
    | cons vch rest =>
      have below := small.stack
      rw [here, allSmall_cons] at below
      have digest : (crypto.hash op vch).length ≤ 520 := by
        rw [fills op vch]
        exact Nat.le_trans op.digestSize_le (by omega)
      exact .ok ⟨allSmall_cons.mpr ⟨digest, below.2⟩, small.altstack⟩
  | checkSig verify =>
    exact onStack (checkSig_small crypto checker flags verify state.codeHash small.stack)
  | checkMultiSig verify =>
    refine .bind (checkMultiSig_small crypto checker flags verify state.nOpCount
      state.codeHash small.stack) fun result below => .ok ?_
    exact ⟨below, small.altstack⟩
  | _ => exact onStack (moveStack_small _ small.stack)

theorem dispatch_small (fills : crypto.FillsDigests) (script : CScript) (opcode : UInt8)
    {data : Valtype} (measured : data.length ≤ 520) (small : KeepsSmall state) :
    Returns KeepsSmall (dispatch crypto checker flags script opcode data state) := by
  refine .choice (.choice (.error _) (.ok ?_)) (.choice ?_ (.ok small))
  · exact ⟨allSmall_cons.mpr ⟨measured, small.stack⟩, small.altstack⟩
  · exact execute_small crypto checker flags fills script _ small _

/-- The limits of both stacks. -/
structure WithinLimits (state : EvalState) : Prop where
  few : state.stack.length + state.altstack.length ≤ 1000
  small : KeepsSmall state

theorem evalStep_limits (fills : crypto.FillsDigests) (script : CScript) (small : KeepsSmall state)
    :
    Returns WithinLimits (evalStep crypto checker flags script state) := by
  intro next ok
  obtain ⟨opcode, data, pc, nOpCount, -, measured, dispatched, few⟩ :=
    exists_of_evalStep crypto checker flags ok
  have before : KeepsSmall { state with pc := pc, nOpCount := nOpCount } :=
    ⟨small.stack, small.altstack⟩
  exact ⟨few, dispatch_small crypto checker flags fills script opcode measured before next
    dispatched⟩

end

end Interpreter

namespace EvalScript

section

variable (crypto : ScriptCrypto) (checker : SignatureChecker) (flags : ScriptFlags)

theorem check_eq_error {condition : Bool} {serror : ScriptError} {exit : ScriptExit}
    (fails : (check condition serror).outcome = .error exit) : exit = .error serror := by
  cases condition with
  | true => cases fails
  | false =>
    cases fails
    rfl

/-- The states that the loop of `EvalScript` goes through. -/
inductive Reached (script : CScript) (stack : List Valtype) : EvalState → Prop where
  | start : Reached script stack (initially stack script)
  | round {state next : EvalState} (before : Reached script stack state)
      (more : state.pc ≠ [])
      (step : (evalStep crypto checker flags script state).outcome = .ok next) :
      Reached script stack next

theorem Reached.limits (fills : crypto.FillsDigests) {script : CScript} {stack : List Valtype}
    (few : stack.length ≤ 1000) (small : ∀ vch ∈ stack, vch.length ≤ 520) {state : EvalState}
    (reached : Reached crypto checker flags script stack state) :
    Interpreter.WithinLimits state := by
  induction reached with
  | start => exact ⟨few, small, Interpreter.allSmall_nil⟩
  | @round state next before more step ih =>
    have follows := evalStep_follows crypto checker flags script state
    exact Interpreter.evalStep_limits crypto checker flags fills script ih.small next
      (follows.ok_iff.mp step)

theorem evalScript_nil_payToScriptHash {scriptPubKey : CScript}
    (paysToScriptHash : scriptPubKey.isPayToScriptHash = true) :
    ∃ serror, Interpreter.evalScript crypto checker flags [] scriptPubKey = .error serror := by
  simp only [CScript.isPayToScriptHash, Bool.and_eq_true, beq_iff_eq] at paysToScriptHash
  obtain ⟨⟨⟨size, first⟩, -⟩, -⟩ := paysToScriptHash
  cases scriptPubKey with
  | nil => cases size
  | cons opcode rest =>
    cases first
    refine ⟨.invalidStackOperation, ?_⟩
    unfold Interpreter.evalScript
    rw [if_neg (by rw [size]; omega)]
    show (Interpreter.evalLoop crypto checker flags (Op.OP_HASH160 :: rest) (rest.length + 1)
      (initially [] (Op.OP_HASH160 :: rest)) >>= _) = _
    rfl

theorem evalAs_outcome (role : ScriptRole) (stack : List Valtype) (script : CScript) :
    (evalAs crypto checker flags role stack script).outcome =
      (Interpreter.evalScript crypto checker flags stack script).mapError .error := by
  show (evalScript crypto checker flags stack script).outcome.mapError id = _
  rw [evalScript_outcome]
  cases Interpreter.evalScript crypto checker flags stack script with
  | error serror => rfl
  | ok left => rfl

/-- **`VerifyScript` ends with an error that is set, or it succeeds**; its assertion never
fails. -/
theorem verifyScript_outcome (scriptSig scriptPubKey : CScript) :
    (verifyScript crypto checker flags scriptSig scriptPubKey).outcome =
      (Interpreter.verifyScript crypto checker flags scriptSig scriptPubKey).mapError .error := by
  unfold verifyScript Interpreter.verifyScript
  by_cases pushes : flags.has .SIGPUSHONLY && !scriptSig.isPushOnly
  · rw [if_pos pushes, if_pos pushes]
    rfl
  · rw [if_neg pushes, if_neg pushes]
    simp only [Logged.outcome_bind, evalAs_outcome]
    apply mapError_bind
    intro stackCopy _
    apply mapError_bind
    intro stack evaluated
    show ((Interpreter.checkResult stack).mapError ScriptExit.error >>= _) = _
    apply mapError_bind
    intro _ _
    by_cases redeems : flags.has .P2SH && scriptPubKey.isPayToScriptHash
    · rw [if_pos redeems, if_pos redeems]
      unfold verifyRedeemScript
      by_cases pushOnly : !scriptSig.isPushOnly
      · rw [if_pos pushOnly, if_pos pushOnly]
        rfl
      · rw [if_neg pushOnly, if_neg pushOnly]
        cases stackCopy with
        | nil =>
          obtain ⟨serror, fails⟩ := evalScript_nil_payToScriptHash crypto checker flags
            (Bool.and_eq_true_iff.mp redeems).2
          rw [fails] at evaluated
          cases evaluated
        | cons pubKey2 rest =>
          simp only [Logged.outcome_bind, evalAs_outcome]
          apply mapError_bind
          intro left _
          rfl
    · rw [if_neg redeems, if_neg redeems]
      rfl

/-- **The interpreter stays in range and within its limits.** From a stack within the limits, the
`try` block of `EvalScript` ends with an error that is set or with an exception of `CScriptNum`,
never with one of `at` or `popstack`; the catch-all error stands for a `CScriptNum` that is not
well formed; in every state of the run both stacks together have at most 1000 elements, of at
most 520 bytes; and `VerifyScript` does not fail its assertion. -/
theorem evalScript_in_range (fills : crypto.FillsDigests) (script : CScript)
    (stack : List Valtype) (few : stack.length ≤ 1000) (small : ∀ vch ∈ stack, vch.length ≤ 520) :
    (∀ exit, (evalTry crypto checker flags stack script).outcome = .error exit →
      exit = .scriptNumError ∨ ∃ serror, serror ≠ .unknownError ∧ exit = .error serror) ∧
    ((evalScript crypto checker flags stack script).outcome = .error (.error .unknownError) →
      (evalTry crypto checker flags stack script).outcome = .error .scriptNumError) ∧
    (∀ state, Reached crypto checker flags script stack state →
      state.stack.length + state.altstack.length ≤ 1000 ∧
      ∀ vch ∈ state.stack ++ state.altstack, vch.length ≤ 520) ∧
    ∀ scriptSig scriptPubKey,
      (verifyScript crypto checker flags scriptSig scriptPubKey).outcome ≠
        .error .assertionFailed := by
  have ends : ∀ exit, (evalTry crypto checker flags stack script).outcome = .error exit →
      exit = .scriptNumError ∨ ∃ serror, serror ≠ .unknownError ∧ exit = .error serror := by
    intro exit fails
    obtain ⟨serror, -, stops⟩ :=
      (evalTry_follows crypto checker flags stack script).exists_related fails
    cases exit with
    | error other => exact .inr ⟨other, stops.2, rfl⟩
    | scriptNumError => exact .inl rfl
    | outOfRange | assertionFailed | outOfFuel => cases stops
  refine ⟨ends, fun unknown => ?_, fun state reached => ?_, fun scriptSig scriptPubKey => ?_⟩
  · simp only [evalScript, Logged.outcome_bind, Logged.relabel] at unknown
    rcases bind_eq_error.mp unknown with long | ⟨_, -, rest⟩
    · cases check_eq_error long
    · rcases bind_eq_error.mp rest with stopped | ⟨final, -, finished⟩
      · cases ended : (evalTry crypto checker flags stack script).outcome with
        | ok final =>
          rw [ended] at stopped
          cases stopped
        | error exit =>
          rw [ended] at stopped
          rcases ends exit ended with rfl | ⟨serror, known, rfl⟩
          · rfl
          · cases stopped
            exact absurd rfl known
      · rcases bind_eq_error.mp finished with unbalanced | ⟨_, -, impossible⟩
        · cases check_eq_error unbalanced
        · cases impossible
  · have limits := reached.limits crypto checker flags fills few small
    refine ⟨limits.few, fun vch mem => ?_⟩
    rcases List.mem_append.mp mem with onStack | onAltstack
    · exact limits.small.stack vch onStack
    · exact limits.small.altstack vch onAltstack
  · rw [verifyScript_outcome]
    cases Interpreter.verifyScript crypto checker flags scriptSig scriptPubKey with
    | error serror => exact nofun
    | ok value => exact nofun

end

def blankDigests : ScriptCrypto := ⟨fun op _ => List.replicate op.digestSize 0, fun _ => true⟩

def noSignatures : SignatureChecker := ⟨fun _ _ _ => false, fun _ => false, fun _ => false⟩

/-- `OP_1 OP_DUP` from a stack of one element. -/
theorem evalScript_in_range_dup :
    (∀ exit, (evalTry blankDigests noSignatures 0 [[7]] [0x51, 0x76]).outcome = .error exit →
      exit = .scriptNumError ∨ ∃ serror, serror ≠ .unknownError ∧ exit = .error serror) ∧
    ((evalScript blankDigests noSignatures 0 [[7]] [0x51, 0x76]).outcome =
        .error (.error .unknownError) →
      (evalTry blankDigests noSignatures 0 [[7]] [0x51, 0x76]).outcome = .error .scriptNumError) ∧
    (∀ state, Reached blankDigests noSignatures 0 [0x51, 0x76] [[7]] state →
      state.stack.length + state.altstack.length ≤ 1000 ∧
      ∀ vch ∈ state.stack ++ state.altstack, vch.length ≤ 520) ∧
    ∀ scriptSig scriptPubKey,
      (verifyScript blankDigests noSignatures 0 scriptSig scriptPubKey).outcome ≠
        .error .assertionFailed :=
  evalScript_in_range blankDigests noSignatures 0 (fun _ _ => List.length_replicate)
    [0x51, 0x76] [[7]] (by decide) (by decide)

end EvalScript

end DogeCash
