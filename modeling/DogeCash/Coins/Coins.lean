import DogeCash.Foundation.Slots
import DogeCash.Primitives.Transaction

/-! # Unspent outputs of one transaction

`CCoins` keeps the metadata of a transaction and its outputs, spent outputs
being null and null outputs at the end being dropped. `CCoins.spend` removes an
output and produces the record that restores it; the record carries the metadata
only when the last output was removed.
-/

namespace DogeCash

/-- `CCoins`. The default value is that of the empty constructor. -/
structure CCoins where
  fCoinBase : Bool := false
  fCoinStake : Bool := false
  vout : List CTxOut := []
  nHeight : Int32 := 0
  nVersion : Int32 := 0
  deriving DecidableEq

/-- `CTxInUndo`: the output an input spent and, if it was the last unspent one of
its transaction, the metadata of that transaction. -/
structure CTxInUndo where
  txout : CTxOut
  fCoinBase : Bool := false
  fCoinStake : Bool := false
  nHeight : UInt32 := 0
  nVersion : Int32 := 0
  deriving DecidableEq

/-- `CTxUndo`: one record for each input of a transaction. -/
structure CTxUndo where
  vprevout : List CTxInUndo := []
  deriving DecidableEq

namespace CCoins

def clear (_ : CCoins) : CCoins := {}

/-- `CCoins::Cleanup`: drop the spent outputs at the end. -/
def cleanup (coins : CCoins) : CCoins := { coins with vout := coins.vout.rdropWhile CTxOut.isNull }

def clearUnspendable (coins : CCoins) : CCoins :=
  cleanup { coins with
    vout := coins.vout.map fun out =>
      if CScript.isUnspendable out.scriptPubKey then CTxOut.null else out }

/-- `CCoins::FromTx`, also the constructor from a transaction and a height. -/
def fromTx (tx : CTransaction) (nHeight : Int32) : CCoins :=
  clearUnspendable
    { fCoinBase := tx.isCoinBase
      fCoinStake := tx.isCoinStake
      vout := tx.vout
      nHeight := nHeight
      nVersion := tx.nVersion }

def isPruned (coins : CCoins) : Bool := coins.vout.all CTxOut.isNull

def isAvailable (coins : CCoins) (nPos : UInt32) : Bool :=
  match coins.vout[nPos.toNat]? with
  | some out => !out.isNull && !CScript.isZerocoinMint out.scriptPubKey
  | none => false

/-- `operator==` on `CCoins`: empty objects are equal whatever their metadata. -/
def same (first second : CCoins) : Bool := (first.isPruned && second.isPruned) || first == second

/-- `CCoins::Spend`: `none` where the source returns false. -/
def spend (coins : CCoins) (out : COutPoint) : Option (CCoins × CTxInUndo) :=
  match coins.vout[out.n.toNat]? with
  | none => none
  | some txout =>
    if txout.isNull then none
    else
      let spent := cleanup { coins with vout := coins.vout.set out.n.toNat CTxOut.null }
      if spent.vout.isEmpty then
        some (spent,
          { txout := txout
            nHeight := spent.nHeight.toUInt32
            fCoinBase := spent.fCoinBase
            fCoinStake := spent.fCoinStake
            nVersion := spent.nVersion })
      else some (spent, { txout := txout })

/-- The null outputs are canonical and none is left at the end of `vout`: what
`Cleanup` and the deserialization of a `CCoins` leave behind. -/
structure WellFormed (coins : CCoins) : Prop where
  canonical : Slots.Canonical CTxOut.isNull CTxOut.null coins.vout
  trimmed : Slots.Trimmed CTxOut.isNull coins.vout

section

variable (coins : CCoins)
include coins

@[simp] theorem cleanup_fCoinBase : coins.cleanup.fCoinBase = coins.fCoinBase := rfl

@[simp] theorem cleanup_fCoinStake : coins.cleanup.fCoinStake = coins.fCoinStake := rfl

@[simp] theorem cleanup_nHeight : coins.cleanup.nHeight = coins.nHeight := rfl

@[simp] theorem cleanup_nVersion : coins.cleanup.nVersion = coins.nVersion := rfl

@[simp] theorem cleanup_vout : coins.cleanup.vout = coins.vout.rdropWhile CTxOut.isNull := rfl

@[simp] theorem isPruned_cleanup : coins.cleanup.isPruned = coins.isPruned := by
  rw [Bool.eq_iff_iff]
  simp only [isPruned, List.all_eq_true]
  constructor
  · intro pruned
    have empty : coins.cleanup.vout.rdropWhile CTxOut.isNull = [] :=
      List.rdropWhile_eq_nil_iff.mpr pruned
    rw [cleanup_vout, List.rdropWhile_idempotent] at empty
    exact List.rdropWhile_eq_nil_iff.mp empty
  · intro pruned out mem
    exact pruned out ((List.rdropWhile_prefix _ _).subset mem)

@[simp] theorem cleanup_cleanup : coins.cleanup.cleanup = coins.cleanup := by
  simp only [cleanup, List.rdropWhile_idempotent]

end

@[simp] theorem cleanup_fromTx (tx : CTransaction) (nHeight : Int32) :
    (fromTx tx nHeight).cleanup = fromTx tx nHeight :=
  cleanup_cleanup _

variable {first second : CCoins} {coins : CCoins} {out : COutPoint}

theorem same_iff : first.same second = true ↔
    (first.isPruned = true ∧ second.isPruned = true) ∨ first = second := by
  simp [same]

@[simp] theorem same_refl (coins : CCoins) : coins.same coins = true := same_iff.mpr (.inr rfl)

theorem same_symm (agree : first.same second = true) : second.same first = true := by
  rcases same_iff.mp agree with ⟨firstPruned, secondPruned⟩ | rfl
  · exact same_iff.mpr (.inl ⟨secondPruned, firstPruned⟩)
  · exact same_refl first

theorem same_trans {first second third : CCoins} (agree : first.same second = true)
    (agree' : second.same third = true) : first.same third = true := by
  rcases same_iff.mp agree with ⟨firstPruned, -⟩ | rfl
  · rcases same_iff.mp agree' with ⟨-, thirdPruned⟩ | rfl
    · exact same_iff.mpr (.inl ⟨firstPruned, thirdPruned⟩)
    · exact agree
  · exact agree'

section

variable (agree : first.same second = true)
include agree

theorem same_cleanup : first.cleanup.same second.cleanup = true := by
  rcases same_iff.mp agree with ⟨firstPruned, secondPruned⟩ | rfl
  · exact same_iff.mpr (.inl ⟨by rwa [isPruned_cleanup], by rwa [isPruned_cleanup]⟩)
  · exact same_refl _

theorem isPruned_eq_of_same : first.isPruned = second.isPruned := by
  rcases same_iff.mp agree with ⟨firstPruned, secondPruned⟩ | rfl
  · rw [firstPruned, secondPruned]
  · rfl

theorem eq_of_same (unspent : second.isPruned = false) : first = second := by
  rcases same_iff.mp agree with ⟨-, pruned⟩ | equal
  · rw [unspent] at pruned
    cases pruned
  · exact equal

end

theorem isPruned_clearUnspendable (pruned : coins.isPruned = true) :
    coins.clearUnspendable.isPruned = true := by
  rw [clearUnspendable, isPruned_cleanup]
  simp only [isPruned, List.all_eq_true, List.mem_map] at pruned ⊢
  rintro slot ⟨out, mem, rfl⟩
  split
  · rfl
  · exact pruned out mem

theorem isPruned_eq_isEmpty_of_clean (clean : coins.cleanup = coins) :
    coins.isPruned = coins.vout.isEmpty := by
  rw [Bool.eq_iff_iff, isPruned, List.all_eq_true, ← List.rdropWhile_eq_nil_iff, ← cleanup_vout,
    clean, List.isEmpty_iff]

theorem cleanup_wellFormed (canonical : Slots.Canonical CTxOut.isNull CTxOut.null coins.vout) :
    coins.cleanup.WellFormed :=
  ⟨canonical.rdropWhile, Slots.trimmed_rdropWhile _⟩

theorem WellFormed.cleanup_eq (wellFormed : coins.WellFormed) : coins.cleanup = coins := by
  have trimmed : coins.vout.rdropWhile CTxOut.isNull = coins.vout := wellFormed.trimmed
  simp only [cleanup, trimmed]

theorem default_wellFormed : ({} : CCoins).WellFormed :=
  ⟨fun _ mem => absurd mem (List.not_mem_nil), rfl⟩

theorem fromTx_wellFormed {tx : CTransaction} (nonneg : ∀ out ∈ tx.vout, 0 ≤ out.nValue)
    (nHeight : Int32) : (fromTx tx nHeight).WellFormed := by
  apply cleanup_wellFormed
  intro slot mem isNull
  obtain ⟨out, inside, rfl⟩ := List.mem_map.mp mem
  by_cases unspendable : CScript.isUnspendable out.scriptPubKey = true
  · simp only [unspendable, ↓reduceIte]
  · simp only [unspendable, ↓reduceIte, CTxOut.not_isNull_of_nonneg (nonneg out inside),
      Bool.false_eq_true] at isNull

theorem clearUnspendable_clearUnspendable (coins : CCoins) :
    coins.clearUnspendable.clearUnspendable = coins.clearUnspendable := by
  have fixed : ∀ out ∈ coins.clearUnspendable.vout,
      CScript.isUnspendable out.scriptPubKey = false := by
    intro out mem
    obtain ⟨original, -, rfl⟩ := List.mem_map.mp ((List.rdropWhile_prefix _ _).subset mem)
    by_cases unspendable : CScript.isUnspendable original.scriptPubKey = true
    · simp only [unspendable, ↓reduceIte]
      rfl
    · rw [if_neg unspendable]
      exact Bool.eq_false_of_not_eq_true unspendable
  have unchanged : coins.clearUnspendable.vout.map (fun out =>
      if CScript.isUnspendable out.scriptPubKey then CTxOut.null else out) =
        coins.clearUnspendable.vout := by
    rw [List.map_congr_left (g := id), List.map_id]
    intro out mem
    simp only [fixed out mem, Bool.false_eq_true, ↓reduceIte, id_eq]
  have trimmed : coins.clearUnspendable.vout.rdropWhile CTxOut.isNull =
      coins.clearUnspendable.vout := Slots.trimmed_rdropWhile _
  rw [clearUnspendable.eq_def coins.clearUnspendable, unchanged]
  simp only [cleanup, trimmed]

@[simp] theorem clearUnspendable_fromTx (tx : CTransaction) (nHeight : Int32) :
    (fromTx tx nHeight).clearUnspendable = fromTx tx nHeight :=
  clearUnspendable_clearUnspendable _

variable {coins spent : CCoins} {undo : CTxInUndo}

/-- What a successful `Spend` does: the output was there, it becomes null and the
list is trimmed; the record has the metadata exactly when nothing is left. -/
theorem spend_eq_some (ok : coins.spend out = some (spent, undo)) :
    coins.vout[out.n.toNat]? = some undo.txout ∧ undo.txout.isNull = false ∧
      spent = cleanup { coins with vout := coins.vout.set out.n.toNat CTxOut.null } ∧
      (spent.isPruned = true → undo.nHeight = coins.nHeight.toUInt32 ∧
        undo.fCoinBase = coins.fCoinBase ∧ undo.fCoinStake = coins.fCoinStake ∧
        undo.nVersion = coins.nVersion) ∧
      (spent.isPruned = false → undo.nHeight = 0) := by
  unfold spend at ok
  split at ok
  · cases ok
  · rename_i txout inside
    split at ok
    · cases ok
    · rename_i occupied
      have pruned : ∀ coins : CCoins, coins.cleanup.isPruned = coins.cleanup.vout.isEmpty := by
        intro coins
        rw [Bool.eq_iff_iff, isPruned, List.all_eq_true, ← List.rdropWhile_eq_nil_iff,
          cleanup_vout, List.rdropWhile_idempotent, List.isEmpty_iff]
      dsimp only at ok
      split at ok
      · rename_i isEmpty
        cases ok
        refine ⟨inside, by simpa using occupied, rfl, fun _ => ⟨rfl, rfl, rfl, rfl⟩, ?_⟩
        intro left
        rw [pruned, isEmpty] at left
        cases left
      · rename_i notEmpty
        cases ok
        refine ⟨inside, by simpa using occupied, rfl, ?_, fun _ => rfl⟩
        intro nothing
        rw [pruned] at nothing
        exact absurd nothing notEmpty

theorem spend_wellFormed (wellFormed : coins.WellFormed)
    (ok : coins.spend out = some (spent, undo)) :
    spent.WellFormed := by
  obtain ⟨-, -, rfl, -⟩ := spend_eq_some ok
  exact cleanup_wellFormed (wellFormed.canonical.set _ _ fun _ => rfl)

theorem spend_isSome_of_isAvailable (available : coins.isAvailable out.n = true) :
    (coins.spend out).isSome := by
  unfold isAvailable at available
  split at available
  · rename_i txout inside
    simp only [Bool.and_eq_true, Bool.not_eq_eq_eq_not, Bool.not_true] at available
    simp only [spend, inside, available.1, Bool.false_eq_true, ↓reduceIte]
    split <;> rfl
  · cases available

end CCoins

end DogeCash
