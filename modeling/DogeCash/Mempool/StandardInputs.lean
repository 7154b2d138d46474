import DogeCash.Script.Solver
import DogeCash.Validation.RecordedSpends

/-! # Standard inputs

`AreInputsStandard` goes through the inputs of a transaction and returns false at the first
that is not standard. It returns as well at an input whose redeem script has no standard
form, and the inputs after that one are not looked at (`inputByInput_iff`).
-/

namespace DogeCash

/-- `BaseSignatureChecker` -/
def SignatureChecker.base : SignatureChecker where
  checkSig _ _ _ := false
  checkLockTime _ := false
  checkColdStake _ := false

/-- `MAX_P2SH_SIGOPS` -/
def maxP2SHSigOps : Nat := 15

namespace StandardInputs

variable (crypto : ScriptCrypto) (view : CoinsMap)

/-- The round of the loop for a pay-to-script-hash output, from the stack that the input
leaves: what `AreInputsStandard` returns there, `none` when the loop goes on. -/
def scriptHashRound (nArgsExpected : Nat) : List Valtype → Option Bool
  | [] => some false
  | subscript :: rest =>
    match solver subscript with
    | some (whichType2, vSolutions2) =>
      match scriptSigArgsExpected whichType2 vSolutions2 with
      | none => some false
      | some tmpExpected =>
        if rest.length + 1 = nArgsExpected + tmpExpected then none else some false
    | none => some (CScript.getSigOpCount subscript true ≤ maxP2SHSigOps)

/-- One round of the loop: what `AreInputsStandard` returns there, `none` when the loop goes
on. -/
def inputRound (txin : CTxIn) : Option Bool :=
  match solver (view.outputFor txin.prevout).scriptPubKey with
  | none => some false
  | some (whichType, vSolutions) =>
    match scriptSigArgsExpected whichType vSolutions with
    | none => some false
    | some nArgsExpected =>
      match Interpreter.evalScript crypto .base 0 [] txin.scriptSig with
      | .error _ => some false
      | .ok stack =>
        if whichType = .scriptHash then scriptHashRound nArgsExpected stack
        else if stack.length = nArgsExpected then none else some false

/-- The loop of `AreInputsStandard`. -/
def standardInputs : List CTxIn → Bool
  | [] => true
  | txin :: rest =>
    match inputRound crypto view txin with
    | some result => result
    | none => standardInputs rest

def areInputsStandard (tx : CTransaction) : Bool :=
  tx.isCoinBase || tx.isZerocoinSpend || standardInputs crypto view tx.vin

/-- The input is standard when it is looked at alone. -/
def StandardAlone (txin : CTxIn) : Prop := standardInputs crypto view [txin] = true

/-- An input that reveals a redeem script of no standard form, with at most 15 signature
operations. -/
def RevealsOther (txin : CTxIn) : Prop :=
  (view.outputFor txin.prevout).scriptPubKey.isPayToScriptHash = true ∧
    ∃ subscript rest,
      Interpreter.evalScript crypto .base 0 [] txin.scriptSig = .ok (subscript :: rest) ∧
        solver subscript = none ∧ CScript.getSigOpCount subscript true ≤ maxP2SHSigOps

variable {crypto view} {txin : CTxIn}

theorem standardAlone_iff :
    StandardAlone crypto view txin ↔
      inputRound crypto view txin = none ∨ inputRound crypto view txin = some true := by
  unfold StandardAlone standardInputs
  cases inputRound crypto view txin with
  | none => exact ⟨fun _ => .inl rfl, fun _ => rfl⟩
  | some result => simp

theorem scriptHashRound_eq_some_true {nArgsExpected : Nat} {stack : List Valtype} :
    scriptHashRound nArgsExpected stack = some true ↔
      ∃ subscript rest, stack = subscript :: rest ∧ solver subscript = none ∧
        CScript.getSigOpCount subscript true ≤ maxP2SHSigOps := by
  cases stack with
  | nil => simp [scriptHashRound]
  | cons subscript rest =>
    rw [scriptHashRound]
    cases solved : solver subscript with
    | none =>
      constructor
      · intro few
        exact ⟨subscript, rest, rfl, solved, by simpa using few⟩
      · rintro ⟨_, _, equal, -, few⟩
        cases equal
        simpa using few
    | some found =>
      have other : ¬∃ subscript' rest', subscript :: rest = subscript' :: rest' ∧
          solver subscript' = none ∧
          CScript.getSigOpCount subscript' true ≤ maxP2SHSigOps := by
        rintro ⟨_, _, equal, unsolved, -⟩
        cases equal
        rw [solved] at unsolved
        cases unsolved
      refine iff_of_false ?_ other
      dsimp only
      cases scriptSigArgsExpected found.1 found.2 with
      | none => simp
      | some tmpExpected =>
        dsimp only
        split_ifs
        · simp
        · simp

theorem solver_eq_scriptHash {script : CScript} {vSolutions : List Valtype}
    (solved : solver script = some (.scriptHash, vSolutions)) :
    script.isPayToScriptHash = true := by
  by_contra other
  have noTemplate : ∀ template ∈ Solver.templates, template.1 ≠ .scriptHash := by decide
  unfold solver at solved
  split_ifs at solved
  · cases solved
  · cases solved
  · split at solved
    · cases solved
    · rename_i type solutions found
      obtain ⟨template, mem, matched⟩ := List.exists_of_findSome?_eq_some found
      obtain ⟨_, -, same⟩ := Option.map_eq_some_iff.mp matched
      rw [Prod.mk.injEq] at same
      split_ifs at solved
      cases solved
      exact noTemplate template mem same.1

theorem inputRound_eq_some_true :
    inputRound crypto view txin = some true ↔ RevealsOther crypto view txin := by
  unfold inputRound RevealsOther
  cases scriptHash : (view.outputFor txin.prevout).scriptPubKey.isPayToScriptHash with
  | true =>
    have solved : ∃ vSolutions,
        solver (view.outputFor txin.prevout).scriptPubKey = some (.scriptHash, vSolutions) := by
      unfold solver
      rw [if_pos scriptHash]
      exact ⟨_, rfl⟩
    obtain ⟨vSolutions, solved⟩ := solved
    rw [solved]
    dsimp only [scriptSigArgsExpected]
    cases Interpreter.evalScript crypto .base 0 [] txin.scriptSig with
    | error error => simp
    | ok stack =>
      dsimp only
      rw [if_pos rfl, scriptHashRound_eq_some_true]
      simp
  | false =>
    cases solved : solver (view.outputFor txin.prevout).scriptPubKey with
    | none => simp
    | some found =>
      obtain ⟨whichType, vSolutions⟩ := found
      have notScriptHash : whichType ≠ .scriptHash := by
        rintro rfl
        rw [solver_eq_scriptHash solved] at scriptHash
        cases scriptHash
      dsimp only
      cases scriptSigArgsExpected whichType vSolutions with
      | none => simp
      | some nArgsExpected =>
        cases Interpreter.evalScript crypto .base 0 [] txin.scriptSig with
        | error error => simp
        | ok stack =>
          dsimp only
          rw [if_neg notScriptHash]
          split_ifs
          · simp
          · simp

theorem RevealsOther.standardAlone (reveals : RevealsOther crypto view txin) :
    StandardAlone crypto view txin :=
  standardAlone_iff.mpr (.inr (inputRound_eq_some_true.mpr reveals))

theorem RevealsOther.notZerocoinSpend (reveals : RevealsOther crypto view txin) :
    CScript.isZerocoinSpend txin.scriptSig = false := by
  obtain ⟨-, subscript, rest, evaluated, -⟩ := reveals
  by_contra spend
  obtain ⟨error, failed⟩ : ∃ error,
      Interpreter.evalScript crypto .base 0 [] txin.scriptSig = .error error :=
    Interpreter.evalScript_zerocoinSpend [] (by simpa using spend)
  rw [evaluated] at failed
  cases failed

/-! ## The loop -/

variable (crypto view) in
def Unmixed (vin : List CTxIn) : Prop :=
  ∀ before txin after, vin = before ++ txin :: after →
    (∀ other ∈ before, StandardAlone crypto view other) → RevealsOther crypto view txin →
      ∀ other ∈ after, StandardAlone crypto view other

variable {vin : List CTxIn}

theorem standardInputs_of_standardAlone
    (alone : ∀ txin ∈ vin, StandardAlone crypto view txin) :
    standardInputs crypto view vin = true := by
  induction vin with
  | nil => rfl
  | cons txin rest ih =>
    obtain ⟨first, others⟩ := List.forall_mem_cons.mp alone
    unfold standardInputs
    rcases standardAlone_iff.mp first with goesOn | returns
    · rw [goesOn]
      exact ih others
    · rw [returns]

theorem standardInputs_of_revealsOther {before after : List CTxIn}
    (alone : ∀ other ∈ before, StandardAlone crypto view other)
    (reveals : RevealsOther crypto view txin) :
    standardInputs crypto view (before ++ txin :: after) = true := by
  induction before with
  | nil =>
    rw [List.nil_append]
    unfold standardInputs
    rw [inputRound_eq_some_true.mpr reveals]
  | cons first rest ih =>
    obtain ⟨here, others⟩ := List.forall_mem_cons.mp alone
    rw [List.cons_append]
    unfold standardInputs
    rcases standardAlone_iff.mp here with goesOn | returns
    · rw [goesOn]
      exact ih others
    · rw [returns]

theorem Unmixed.tail (unmixed : Unmixed crypto view (txin :: vin))
    (first : StandardAlone crypto view txin) : Unmixed crypto view vin := by
  intro before other after split alone
  refine unmixed (txin :: before) other after ?_ ?_
  · rw [split, List.cons_append]
  · exact List.forall_mem_cons.mpr ⟨first, alone⟩

theorem Unmixed.standardAlone (unmixed : Unmixed crypto view vin)
    (standard : standardInputs crypto view vin = true) :
    ∀ txin ∈ vin, StandardAlone crypto view txin := by
  induction vin with
  | nil => exact nofun
  | cons first rest ih =>
    unfold standardInputs at standard
    rw [List.forall_mem_cons]
    cases round : inputRound crypto view first with
    | none =>
      rw [round] at standard
      have here : StandardAlone crypto view first := standardAlone_iff.mpr (.inl round)
      exact ⟨here, ih (unmixed.tail here) standard⟩
    | some result =>
      rw [round] at standard
      subst standard
      have reveals : RevealsOther crypto view first := inputRound_eq_some_true.mp round
      exact ⟨reveals.standardAlone,
        unmixed [] first rest rfl nofun reveals⟩

theorem standardInputs_iff_unmixed :
    (standardInputs crypto view vin = true ↔ ∀ txin ∈ vin, StandardAlone crypto view txin) ↔
      Unmixed crypto view vin := by
  constructor
  · intro decides before txin after split alone reveals other mem
    subst split
    apply decides.mp (standardInputs_of_revealsOther alone reveals)
    exact List.mem_append_right before (List.mem_cons_of_mem txin mem)
  · exact fun unmixed => ⟨unmixed.standardAlone, standardInputs_of_standardAlone⟩

/-! ## Whole transactions -/

variable {tx : CTransaction}

theorem areInputsStandard_of_regular (notCoinBase : tx.isCoinBase = false)
    (notSpend : tx.isZerocoinSpend = false) :
    areInputsStandard crypto view tx = standardInputs crypto view tx.vin := by
  unfold areInputsStandard
  rw [notCoinBase, notSpend]
  rfl

theorem isCoinBase_of_perm {order : List CTxIn} (perm : order.Perm tx.vin)
    (notCoinBase : tx.isCoinBase = false) :
    ({ tx with vin := order } : CTransaction).isCoinBase = false := by
  by_cases single : ∃ txin, order = [txin]
  · obtain ⟨txin, rfl⟩ := single
    have same : tx.vin = [txin] := (List.singleton_perm.mp perm).symm
    rw [← same]
    exact notCoinBase
  · unfold CTransaction.isCoinBase
    split
    · rename_i txin alone
      exact absurd ⟨txin, alone⟩ single
    · rfl

/-- **Standardness is decided input by input** exactly when no input is refused that comes
after standard inputs of which one reveals a redeem script of no standard form; and for every
order of the inputs exactly when the transaction has not got inputs of both kinds. -/
theorem inputByInput_iff (crypto : ScriptCrypto) (view : CoinsMap) (tx : CTransaction)
    (notCoinBase : tx.isCoinBase = false) (notSpend : tx.isZerocoinSpend = false) :
    ((areInputsStandard crypto view tx = true ↔
        ∀ txin ∈ tx.vin, StandardAlone crypto view txin) ↔ Unmixed crypto view tx.vin) ∧
      ((∀ order : List CTxIn, order.Perm tx.vin →
          ({ tx with vin := order } : CTransaction).isZerocoinSpend = false →
          (areInputsStandard crypto view { tx with vin := order } = true ↔
            ∀ txin ∈ tx.vin, StandardAlone crypto view txin)) ↔
        ((∃ txin ∈ tx.vin, RevealsOther crypto view txin) →
          ∀ txin ∈ tx.vin, StandardAlone crypto view txin)) := by
  refine ⟨?_, ?_, ?_⟩
  · rw [areInputsStandard_of_regular notCoinBase notSpend]
    exact standardInputs_iff_unmixed
  · rintro every ⟨txin, mem, reveals⟩
    -- The input that is met first decides, and it can be met first.
    have perm : (txin :: tx.vin.erase txin).Perm tx.vin := (List.perm_cons_erase mem).symm
    have plain : ({ tx with vin := txin :: tx.vin.erase txin } : CTransaction).isZerocoinSpend =
        false := by
      simp [CTransaction.isZerocoinSpend, reveals.notZerocoinSpend]
    apply (every _ perm plain).mp
    rw [areInputsStandard_of_regular (isCoinBase_of_perm perm notCoinBase) plain]
    exact standardInputs_of_revealsOther (fun _ mem => absurd mem List.not_mem_nil) reveals
  · intro together order perm plain
    rw [areInputsStandard_of_regular (isCoinBase_of_perm perm notCoinBase) plain]
    have members : (∀ txin ∈ order, StandardAlone crypto view txin) ↔
        ∀ txin ∈ tx.vin, StandardAlone crypto view txin :=
      forall_congr' fun txin => imp_congr_left perm.mem_iff
    rw [← members]
    apply standardInputs_iff_unmixed.mpr
    intro before txin after split _ reveals other mem
    change order = before ++ txin :: after at split
    apply members.mpr (together ⟨txin, perm.mem_iff.mp ?_, reveals⟩)
    · rw [split]
      exact List.mem_append_right before (List.mem_cons_of_mem txin mem)
    · rw [split]
      exact List.mem_append_right before List.mem_cons_self

def sampleCrypto : ScriptCrypto := ⟨fun _ _ => List.replicate 20 7, fun _ => true⟩

def sampleHashed : CTxOut := .of COIN ([0xa9, 20] ++ List.replicate 20 7 ++ [0x87])

def sampleView : CoinsMap :=
  Function.update (fun _ => {}) 5
    { vout := [sampleHashed, .of COIN [0x51], sampleHashed], nHeight := 100 }

/-- Inputs that reveal the script `OP_1`, and one that spends it bare. -/
def sampleRevealing : CTxIn := ⟨⟨5, 0⟩, [1, 0x51], 0xffffffff⟩

def otherRevealing : CTxIn := ⟨⟨5, 2⟩, [1, 0x51], 0xffffffff⟩

def sampleBare : CTxIn := ⟨⟨5, 1⟩, [], 0xffffffff⟩

def sampleTx (vin : List CTxIn) : CTransaction := ⟨9, 1, vin, [.of COIN [0x51]], 0⟩

/-- Both inputs reveal a script, and each is standard alone. -/
theorem inputByInput_sample :
    (areInputsStandard sampleCrypto sampleView (sampleTx [sampleRevealing, otherRevealing]) = true ↔
      ∀ txin ∈ [sampleRevealing, otherRevealing], StandardAlone sampleCrypto sampleView txin) := by
  apply (inputByInput_iff sampleCrypto sampleView (sampleTx [sampleRevealing, otherRevealing])
    rfl rfl).1.mpr
  intro before txin after split _ _ other mem
  have listed : other ∈ (sampleTx [sampleRevealing, otherRevealing]).vin := by
    rw [split]
    exact List.mem_append_right before (List.mem_cons_of_mem txin mem)
  have alone : ∀ txin ∈ [sampleRevealing, otherRevealing],
      standardInputs sampleCrypto sampleView [txin] = true := by
    decide
  exact alone other listed

/-- The bare input is refused alone and in front, and accepted behind the other. -/
theorem inputByInput_fails :
    (sampleTx [sampleRevealing, sampleBare]).isCoinBase = false ∧
      (sampleTx [sampleRevealing, sampleBare]).isZerocoinSpend = false ∧
      sampleView.haveInputs (sampleTx [sampleRevealing, sampleBare]) = true ∧
      ¬StandardAlone sampleCrypto sampleView sampleBare ∧
      areInputsStandard sampleCrypto sampleView (sampleTx [sampleRevealing, sampleBare]) = true ∧
      areInputsStandard sampleCrypto sampleView (sampleTx [sampleBare, sampleRevealing]) =
        false := by
  refine ⟨rfl, rfl, ?_, ?_, ?_, ?_⟩
  · decide
  · unfold StandardAlone
    decide
  · decide
  · decide

end StandardInputs

end DogeCash
