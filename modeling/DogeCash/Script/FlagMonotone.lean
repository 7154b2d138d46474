import DogeCash.Script.Interpreter

/-! # Fewer flags accept more scripts

A script that verifies under some flags verifies under any part of them, as long
as that part does not discourage the upgradable no-ops. The two runs go through
the same states: each place where the flags are looked at either makes a check
that fewer flags make less often, or, for `OP_CHECKLOCKTIMEVERIFY`, leaves the
state alone.
-/

namespace DogeCash

namespace ScriptFlags

def Subset (fewer flags : ScriptFlags) : Prop := fewer &&& flags = fewer

/-- `fewer` is a part of `flags` without the flag that discourages no-ops. -/
structure Weaker (fewer flags : ScriptFlags) : Prop where
  subset : Subset fewer flags
  noDiscouragement : fewer.has DISCOURAGE_UPGRADABLE_NOPS = false

theorem Subset.has {fewer flags : ScriptFlags} (subset : Subset fewer flags) {mask : ScriptFlags}
    (present : fewer.has mask = true) : flags.has mask = true := by
  simp only [ScriptFlags.has, bne_iff_ne, ne_eq] at present ⊢
  intro absent
  apply present
  rw [← subset, UInt32.and_assoc, absent, UInt32.and_zero]

end ScriptFlags

namespace Interpreter

variable {crypto : ScriptCrypto} {checker : SignatureChecker} {fewer flags : ScriptFlags}

section

variable (subset : ScriptFlags.Subset fewer flags)
include subset

theorem parse_succeeds (vch : Valtype) (size : Nat) :
    Succeeds (ScriptNum.parse vch (flags.has .MINIMALDATA) size)
      (ScriptNum.parse vch (fewer.has .MINIMALDATA) size) := by
  refine .check id (.check ?_ (.refl _))
  simp only [Bool.and_eq_true]
  exact fun ⟨minimal, fails⟩ => ⟨subset.has minimal, fails⟩

theorem number_succeeds (vch : Valtype) : Succeeds (number flags vch) (number fewer vch) :=
  parse_succeeds subset vch 4

theorem pick_succeeds (roll : Bool) (stack : List Valtype) :
    Succeeds (pick flags roll stack) (pick fewer roll stack) := by
  match stack with
  | [] | [_] => exact .refl _
  | top :: x :: rest => exact .bind (number_succeeds subset top) fun _ => .refl _

theorem unary_succeeds (op : UnaryOp) (stack : List Valtype) :
    Succeeds (unary flags op stack) (unary fewer op stack) := by
  cases stack with
  | nil => exact .refl _
  | cons x rest => exact .bind (number_succeeds subset x) fun _ => .refl _

theorem binary_succeeds (op : BinaryOp) (stack : List Valtype) :
    Succeeds (binary flags op stack) (binary fewer op stack) := by
  match stack with
  | [] | [_] => exact .refl _
  | x2 :: x1 :: rest =>
    exact .bind (number_succeeds subset x1) fun _ =>
      .bind (number_succeeds subset x2) fun _ => .refl _

theorem within_succeeds (stack : List Valtype) :
    Succeeds (within flags stack) (within fewer stack) := by
  match stack with
  | [] | [_] | [_, _] => exact .refl _
  | x3 :: x2 :: x1 :: rest =>
    exact .bind (number_succeeds subset x1) fun _ =>
      .bind (number_succeeds subset x2) fun _ =>
        .bind (number_succeeds subset x3) fun _ => .refl _

theorem checkEncodings_succeeds (vchSig vchPubKey : Valtype) :
    Succeeds (checkEncodings crypto flags vchSig vchPubKey)
      (checkEncodings crypto fewer vchSig vchPubKey) := by
  -- each check is made under a flag, or under one of several
  have guarded : ∀ mask fails, (fewer.has mask && fails) = true →
      (flags.has mask && fails) = true := by
    intro mask fails
    simp only [Bool.and_eq_true]
    exact fun ⟨present, failing⟩ => ⟨subset.has present, failing⟩
  refine .bind ?_ fun _ => .check (guarded _ _) (.refl _)
  exact .choice (fun _ => .refl _) fun _ =>
    .check (guarded _ _) (.check (guarded _ _) (.check (guarded _ _) (.refl _)))

theorem checkSig_succeeds (verify : Bool) (codeHash : CScript) (stack : List Valtype) :
    Succeeds (checkSig crypto checker flags verify codeHash stack)
      (checkSig crypto checker fewer verify codeHash stack) := by
  match stack with
  | [] | [_] => exact .refl _
  | vchPubKey :: vchSig :: rest =>
    exact .bind (checkEncodings_succeeds subset vchSig vchPubKey) fun _ => .refl _

theorem matchSignatures_succeeds (scriptCode : CScript) (keys sigs : List Valtype) :
    Succeeds (matchSignatures crypto checker flags scriptCode keys sigs)
      (matchSignatures crypto checker fewer scriptCode keys sigs) := by
  induction keys generalizing sigs with
  | nil =>
    cases sigs with
    | nil => exact .refl _
    | cons => exact .refl _
  | cons vchPubKey keys ih =>
    cases sigs with
    | nil => exact .refl _
    | cons vchSig sigs =>
      exact .bind (checkEncodings_succeeds subset vchSig vchPubKey) fun _ =>
        .choice (fun _ => .refl _) fun _ => ih _

theorem checkMultiSig_succeeds (verify : Bool) (nOpCount : Nat) (codeHash : CScript)
    (stack : List Valtype) :
    Succeeds (checkMultiSig crypto checker flags verify nOpCount codeHash stack)
      (checkMultiSig crypto checker fewer verify nOpCount codeHash stack) := by
  cases stack with
  | nil => exact .refl _
  | cons keyCount afterCount =>
    refine .bind (number_succeeds subset keyCount) fun keys => .check id (.check id ?_)
    cases afterCount.drop (ScriptNum.getint keys).toNat with
    | nil => exact .refl _
    | cons sigCount afterKeys =>
      refine .bind (number_succeeds subset sigCount) fun sigs => .check id ?_
      cases afterKeys.drop (ScriptNum.getint sigs).toNat with
      | nil => exact .refl _
      | cons dummy rest =>
        refine .bind (matchSignatures_succeeds subset _ _ _) fun _ => .check ?_ (.refl _)
        simp only [Bool.and_eq_true]
        exact fun ⟨present, notNull⟩ => ⟨subset.has present, notNull⟩

end

theorem checkLockTimeVerify_succeeds (weaker : ScriptFlags.Weaker fewer flags)
    (stack : List Valtype) :
    Succeeds (checkLockTimeVerify checker flags stack)
      (checkLockTimeVerify checker fewer stack) := by
  unfold checkLockTimeVerify
  by_cases enabled : fewer.has .CHECKLOCKTIMEVERIFY = true
  · rw [enabled, weaker.subset.has enabled]
    cases stack with
    | nil => exact .refl _
    | cons top rest => exact .bind (parse_succeeds weaker.subset top 5) fun _ => .refl _
  · simp only [enabled, Bool.not_false, ↓reduceIte, weaker.noDiscouragement, Bool.false_eq_true]
    intro result _
    cases result
    rfl

theorem execute_succeeds (weaker : ScriptFlags.Weaker fewer flags) (script : CScript)
    (fExec : Bool) (state : EvalState) (instruction : Instruction) :
    Succeeds (execute crypto checker flags script fExec state instruction)
      (execute crypto checker fewer script fExec state instruction) := by
  have subset := weaker.subset
  cases instruction with
  | checkLockTimeVerify =>
    exact .bind (checkLockTimeVerify_succeeds weaker state.stack) fun _ => .refl _
  | upgradableNop =>
    refine .check (fun discouraged => ?_) (.refl _)
    rw [weaker.noDiscouragement] at discouraged
    cases discouraged
  | pick roll => exact .bind (pick_succeeds subset roll state.stack) fun _ => .refl _
  | unary op => exact .bind (unary_succeeds subset op state.stack) fun _ => .refl _
  | binary op => exact .bind (binary_succeeds subset op state.stack) fun _ => .refl _
  | within => exact .bind (within_succeeds subset state.stack) fun _ => .refl _
  | checkSig verify =>
    exact .bind (checkSig_succeeds subset verify state.codeHash state.stack) fun _ => .refl _
  | checkMultiSig verify =>
    exact .bind (checkMultiSig_succeeds subset verify _ state.codeHash state.stack) fun _ =>
      .refl _
  | _ => exact .refl _

theorem push_succeeds (subset : ScriptFlags.Subset fewer flags) (opcode : UInt8) (data : Valtype)
    (state : EvalState) :
    Succeeds (push flags opcode data state) (push fewer opcode data state) := by
  refine .check ?_ (.refl _)
  simp only [Bool.and_eq_true]
  exact fun ⟨minimal, fails⟩ => ⟨subset.has minimal, fails⟩

section

variable (weaker : ScriptFlags.Weaker fewer flags)
include weaker

theorem dispatch_succeeds (script : CScript) (opcode : UInt8) (data : Valtype) (state : EvalState) :
    Succeeds (dispatch crypto checker flags script opcode data state)
      (dispatch crypto checker fewer script opcode data state) :=
  .choice (fun _ => push_succeeds weaker.subset opcode data _) fun _ =>
    .choice (fun _ => execute_succeeds weaker script _ _ _) fun _ => .refl _

theorem evalStep_succeeds (script : CScript) (state : EvalState) :
    Succeeds (evalStep crypto checker flags script state)
      (evalStep crypto checker fewer script state) := by
  unfold evalStep
  cases CScript.getOp state.pc with
  | none => exact .refl _
  | some read =>
    obtain ⟨opcode, data, pc⟩ := read
    refine .check id (.check id (.check id (.bind ?_ fun _ => .refl _)))
    exact dispatch_succeeds weaker script opcode data _

theorem evalLoop_succeeds (script : CScript) (fuel : Nat) (state : EvalState) :
    Succeeds (evalLoop crypto checker flags script fuel state)
      (evalLoop crypto checker fewer script fuel state) := by
  induction fuel generalizing state with
  | zero =>
    exact .refl _
  | succ fuel ih =>
    exact .choice (fun _ => .refl _) fun _ => .bind (evalStep_succeeds weaker script state) ih

theorem evalScript_succeeds (stack : List Valtype) (script : CScript) :
    Succeeds (evalScript crypto checker flags stack script)
      (evalScript crypto checker fewer stack script) :=
  .check id (.bind (evalLoop_succeeds weaker script _ _) fun _ => .refl _)

theorem verifyScript_succeeds (scriptSig scriptPubKey : CScript) :
    Succeeds (verifyScript crypto checker flags scriptSig scriptPubKey)
      (verifyScript crypto checker fewer scriptSig scriptPubKey) := by
  refine .check ?_ (.bind (evalScript_succeeds weaker [] scriptSig) fun stackCopy =>
    .bind (evalScript_succeeds weaker stackCopy scriptPubKey) fun stack =>
      .bind (.refl _) fun _ => ?_)
  · simp only [Bool.and_eq_true]
    exact fun ⟨present, fails⟩ => ⟨weaker.subset.has present, fails⟩
  · by_cases both : (fewer.has .P2SH && scriptPubKey.isPayToScriptHash) = true
    · have first : (flags.has .P2SH && scriptPubKey.isPayToScriptHash) = true := by
        simp only [Bool.and_eq_true] at both ⊢
        exact ⟨weaker.subset.has both.1, both.2⟩
      rw [if_pos both, if_pos first]
      refine .check id ?_
      cases stackCopy with
      | nil => exact .refl _
      | cons pubKey2 rest =>
        exact .bind (evalScript_succeeds weaker rest pubKey2) fun _ => .refl _
    · rw [if_neg both]
      intro result _
      cases result
      rfl

end

end Interpreter

end DogeCash
