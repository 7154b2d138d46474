import DogeCash.Primitives.Transaction

/-! # Cold staking delegation

`CTransaction::CheckColdStake` is what lets the staking key of a delegation
spend: the transaction has to be a coinstake that pays back to the script it
spends. The outputs in the middle are compared only when the transaction has
more than three inputs, so which transactions keep the delegated coins under
their script depends on both counts (`delegationKept_iff`).
-/

namespace DogeCash.CTransaction

/-- The outputs other than the first two and the last one, which the loop of
`CheckColdStake` runs over. -/
def middleOutputs (tx : CTransaction) : List CTxOut := tx.vout.dropLast.drop 2

def checkColdStake (tx : CTransaction) (script : CScript) : Bool :=
  if !tx.isCoinStake then false
  else if (tx.vin.drop 1).any fun txin =>
      some txin.scriptSig != tx.vin.head?.map CTxIn.scriptSig then false
  else if tx.vout[1]?.map CTxOut.scriptPubKey != some script then false
  else if 3 < tx.vin.length && tx.middleOutputs.any fun out => out.scriptPubKey != script then false
  else true

def SameScriptSigs (tx : CTransaction) : Prop :=
  ∀ txin ∈ tx.vin, some txin.scriptSig = tx.vin.head?.map CTxIn.scriptSig

/-- All outputs but the first and the last pay the script. -/
def PaysBack (tx : CTransaction) (script : CScript) : Prop :=
  ∀ i out, 0 < i → i + 1 < tx.vout.length → tx.vout[i]? = some out → out.scriptPubKey = script

/-- What passes `CheckColdStake` is a coinstake that pays the script back. -/
def DelegationKept (tx : CTransaction) (script : CScript) : Prop :=
  tx.checkColdStake script = true → tx.isCoinStake = true ∧ tx.PaysBack script

variable {tx : CTransaction} {script : CScript}

theorem checkColdStake_eq_true_iff :
    tx.checkColdStake script = true ↔ tx.isCoinStake = true ∧ tx.SameScriptSigs ∧
      tx.vout[1]?.map CTxOut.scriptPubKey = some script ∧
      (3 < tx.vin.length → ∀ out ∈ tx.middleOutputs, out.scriptPubKey = script) := by
  have sigs : tx.SameScriptSigs ↔ ∀ txin ∈ tx.vin.drop 1,
      some txin.scriptSig = tx.vin.head?.map CTxIn.scriptSig := by
    unfold SameScriptSigs
    cases tx.vin with
    | nil => simp
    | cons txin rest => simp
  rw [sigs]
  simp only [checkColdStake]
  split_ifs with notStake differs first middle
  · simp_all
  · simp only [List.any_eq_true, bne_iff_ne] at differs
    obtain ⟨txin, mem, wrong⟩ := differs
    simp only [false_iff, not_and]
    intro _ same
    exact absurd (same txin mem) wrong
  · simp only [bne_iff_ne, ne_eq] at first
    simp [first]
  · simp only [Bool.and_eq_true, decide_eq_true_eq, List.any_eq_true, bne_iff_ne] at middle
    obtain ⟨many, out, mem, wrong⟩ := middle
    simp only [false_iff, not_and]
    intro _ _ _ same
    exact absurd (same many out mem) wrong
  · simp only [List.any_eq_true, bne_iff_ne, not_exists, not_and, not_not] at differs
    simp only [bne_iff_ne, ne_eq, not_not] at first
    simp only [Bool.and_eq_true, decide_eq_true_eq, List.any_eq_true, bne_iff_ne, not_and,
      not_exists, not_not] at middle
    simp only [Bool.not_eq_eq_eq_not, Bool.not_true, Bool.not_eq_false] at notStake
    exact ⟨fun _ => ⟨notStake, differs, first, middle⟩, fun _ => rfl⟩

theorem paysBack_iff (second : tx.vout[1]?.map CTxOut.scriptPubKey = some script) :
    tx.PaysBack script ↔ ∀ out ∈ tx.middleOutputs, out.scriptPubKey = script := by
  have position : ∀ i, tx.middleOutputs[i]? =
      if i + 2 < tx.vout.length - 1 then tx.vout[i + 2]? else none := by
    intro i
    rw [middleOutputs, List.getElem?_drop, List.getElem?_dropLast, Nat.add_comm]
  constructor
  · intro pays out mem
    obtain ⟨i, present⟩ := List.mem_iff_getElem?.mp mem
    rw [position] at present
    split at present
    · rename_i inside
      exact pays (i + 2) out (by omega) (by omega) present
    · cases present
  · intro same i out positive inside present
    by_cases isSecond : i = 1
    · subst isSecond
      rw [present, Option.map_some, Option.some.injEq] at second
      exact second
    · apply same
      rw [List.mem_iff_getElem?]
      refine ⟨i - 2, ?_⟩
      rw [position, show i - 2 + 2 = i by omega, if_pos (by omega), present]

theorem middleOutputs_eq_nil (few : tx.vout.length ≤ 3) : tx.middleOutputs = [] := by
  rw [middleOutputs, List.drop_eq_nil_iff, List.length_dropLast]
  omega

theorem vin_length_pos_of_isCoinStake (stake : tx.isCoinStake = true) : 0 < tx.vin.length := by
  unfold isCoinStake at stake
  split at stake
  · rename_i inputs _
    simp [inputs]
  · cases stake

theorem delegationKept_iff_middle :
    DelegationKept tx script ↔
      ¬(tx.isCoinStake = true ∧ tx.SameScriptSigs ∧
        tx.vout[1]?.map CTxOut.scriptPubKey = some script ∧ tx.vin.length ≤ 3 ∧
        ∃ out ∈ tx.middleOutputs, out.scriptPubKey ≠ script) := by
  constructor
  · rintro kept ⟨stake, sigs, second, few, out, mem, wrong⟩
    have passes : tx.checkColdStake script = true :=
      checkColdStake_eq_true_iff.mpr ⟨stake, sigs, second, fun many => by omega⟩
    exact wrong ((paysBack_iff second).mp (kept passes).2 out mem)
  · intro none passes
    obtain ⟨stake, sigs, second, middle⟩ := checkColdStake_eq_true_iff.mp passes
    refine ⟨stake, (paysBack_iff second).mpr ?_⟩
    by_contra some
    push Not at some
    obtain ⟨out, mem, wrong⟩ := some
    apply none
    refine ⟨stake, sigs, second, ?_, out, mem, wrong⟩
    by_contra many
    exact wrong (middle (by omega) out mem)

/-- A coinstake that pays back with its second output only. -/
def divertingCoinStake (nInputs nOutputs : Nat) : CTransaction where
  hash := 1
  nVersion := 1
  vin := List.replicate nInputs ⟨⟨2, 0⟩, [], 0xffffffff⟩
  vout := .of 0 [] :: .of COIN [0x51] :: List.replicate (nOutputs - 2) (.of COIN [0x52])
  nLockTime := 0

theorem divertingCoinStake_not_kept {nInputs nOutputs : Nat} (some : 0 < nInputs)
    (few : nInputs ≤ 3) (many : 3 < nOutputs) :
    ¬DelegationKept (divertingCoinStake nInputs nOutputs) [0x51] := by
  obtain ⟨others, rfl⟩ : ∃ others, nOutputs = others + 4 := ⟨nOutputs - 4, by omega⟩
  rw [delegationKept_iff_middle, not_not]
  refine ⟨?_, ?_, rfl, by simpa [divertingCoinStake] using few, .of COIN [0x52], ?_, by decide⟩
  · obtain ⟨rest, rfl⟩ : ∃ rest, nInputs = rest + 1 := ⟨nInputs - 1, by omega⟩
    rfl
  · intro txin mem
    obtain ⟨-, rfl⟩ := List.mem_replicate.mp mem
    simp [divertingCoinStake, List.head?_replicate, Nat.pos_iff_ne_zero.mp some]
  · rw [List.mem_iff_getElem?]
    refine ⟨0, ?_⟩
    simp [middleOutputs, divertingCoinStake, List.replicate_succ, List.dropLast]

/-- **When cold staking keeps the delegated coins.** The check protects every
transaction with given numbers of inputs and outputs exactly when there are more
than three inputs or no output is in the middle; among the others, exactly the
transactions that pass the checks made and have a foreign middle output escape. -/
theorem delegationKept_iff (nInputs nOutputs : Nat) (tx : CTransaction) (script : CScript) :
    ((∀ tx : CTransaction, ∀ script, tx.vin.length = nInputs → tx.vout.length = nOutputs →
        DelegationKept tx script) ↔ nInputs = 0 ∨ 3 < nInputs ∨ nOutputs ≤ 3) ∧
    (DelegationKept tx script ↔
      ¬(tx.isCoinStake = true ∧ tx.SameScriptSigs ∧
        tx.vout[1]?.map CTxOut.scriptPubKey = some script ∧ tx.vin.length ≤ 3 ∧
        ∃ out ∈ tx.middleOutputs, out.scriptPubKey ≠ script)) := by
  refine ⟨⟨fun kept => ?_, fun shape => ?_⟩, delegationKept_iff_middle⟩
  · by_contra shape
    push Not at shape
    obtain ⟨some, few, many⟩ := shape
    refine divertingCoinStake_not_kept (Nat.pos_of_ne_zero some) few many (kept _ _ ?_ ?_)
    · simp [divertingCoinStake]
    · simp only [divertingCoinStake, List.length_cons, List.length_replicate]
      omega
  · intro tx script inputs outputs
    rw [delegationKept_iff_middle]
    rintro ⟨stake, -, -, few, out, mem, -⟩
    rcases shape with none | many | short
    · have positive := vin_length_pos_of_isCoinStake stake
      omega
    · omega
    · rw [middleOutputs_eq_nil (by omega)] at mem
      cases mem

/-- One input and four outputs: the third output goes elsewhere. -/
theorem divertingCoinStake_one_four :
    (divertingCoinStake 1 4).checkColdStake [0x51] = true ∧
      ¬(divertingCoinStake 1 4).PaysBack [0x51] := by
  refine ⟨by decide, fun pays => ?_⟩
  exact absurd (pays 2 (.of COIN [0x52]) (by decide) (by decide) rfl) (by decide)

end DogeCash.CTransaction
