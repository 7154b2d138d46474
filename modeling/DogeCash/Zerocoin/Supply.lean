import DogeCash.Foundation.Run
import DogeCash.Validation.ZerocoinInactive

/-! # The supply of zerocoins

Every entry of the block index carries how many coins of each denomination are in
circulation. `updatezdogecSupply` derives it from the parent's: mints are added and
spends removed, and a block that removes more coins than there are is refused.

Both are done inside the branch for heights below the last accumulator checkpoint.
From there on the parent's supply is copied, so the supply is only accounted for in
chains whose later blocks spend nothing (`accounted_iff_of_run`).
-/

namespace DogeCash

open Function (update update_of_ne update_self)

namespace CoinDenomination

/-- `IntToZerocoinDenomination` -/
def ofInt (amount : Int) : CoinDenomination :=
  if amount = 1 then one
  else if amount = 5 then five
  else if amount = 10 then ten
  else if amount = 50 then fifty
  else if amount = 100 then oneHundred
  else if amount = 500 then fiveHundred
  else if amount = 1000 then oneThousand
  else if amount = 5000 then fiveThousand
  else error

/-- `AmountToZerocoinDenomination` -/
def ofAmount (amount : Int) : CoinDenomination :=
  if amount - COIN * Int.tdiv amount COIN = 0 then ofInt (Int.tdiv amount COIN) else error

/-- `zerocoinDenomList` -/
def denomList : List CoinDenomination :=
  [one, five, ten, fifty, oneHundred, fiveHundred, oneThousand, fiveThousand]

end CoinDenomination

/-- How `UpdatezdogecSupply` fails: by the failsafe on the supply, or by an exception
of `std::map::at` or of the decoding of a spend. -/
inductive SupplyFailure where
  | overspent | outOfRange | undecodable

/-- `mapZerocoinSupply`: its keys are the denominations other than `ZQ_ERROR`. -/
abbrev ZerocoinSupply := CoinDenomination → Int

namespace ZerocoinSupply

def zero : ZerocoinSupply := fun _ => 0

/-- `mapZerocoinSupply.at(denom)++` -/
def addMint (supply : ZerocoinSupply) (denom : CoinDenomination) :
    Except SupplyFailure ZerocoinSupply := do
  require (denom ≠ .error) .outOfRange
  return update supply denom (supply denom + 1)

/-- `mapZerocoinSupply.at(denom)--`, followed by the failsafe. -/
def removeSpend (supply : ZerocoinSupply) (denom : CoinDenomination) :
    Except SupplyFailure ZerocoinSupply := do
  require (denom ≠ .error) .outOfRange
  require (0 ≤ supply denom - 1) .overspent
  return update supply denom (supply denom - 1)

def getZerocoinSupply (supply : ZerocoinSupply) : Int :=
  (CoinDenomination.denomList.map fun denom => denom.toAmount * supply denom).sum

def Nonneg (supply : ZerocoinSupply) : Prop := ∀ denom, 0 ≤ supply denom

end ZerocoinSupply

/-- `GetWrapppedSerialInflation`. On the main network it throws for `ZQ_ERROR`, which its
callers never pass. -/
def ChainParams.getWrapppedSerialInflation (params : ChainParams) (denom : CoinDenomination) :
    Int :=
  if params.networkID = .main then
    match denom with
    | .error => 0
    | .one => 7
    | .five => 6
    | .ten => 36
    | .fifty => 22
    | .oneHundred => 244
    | .fiveHundred => 22
    | .oneThousand => 42
    | .fiveThousand => 98
  else 0

def ChainParams.getWrapppedSerialInflationAmount (params : ChainParams) : Int :=
  (CoinDenomination.denomList.map fun denom =>
    params.getWrapppedSerialInflation denom * denom.toAmount).sum

def ChainParams.isWrappedSerialCorrection (params : ChainParams) (nHeight : Int) : Bool :=
  params.networkID = .main && nHeight = params.nFakeSerialBlockheightEnd + 1

namespace Node

variable (node : Node)

/-- The inner loop of `BlockToZerocoinMintList`, from output `i` on: the mints found,
and whether the loop came to its end rather than to `return false`. -/
def mintOutputs (fFilterInvalid : Bool) (txHash : UInt256) :
    Nat → List CTxOut → List CoinDenomination × Bool
  | _, [] => ([], true)
  | i, out :: rest =>
    if fFilterInvalid && !node.validOutPoint ⟨txHash, UInt32.ofNat i⟩ intMax then ([], true)
    else if !CScript.isZerocoinMint out.scriptPubKey then
      mintOutputs fFilterInvalid txHash (i + 1) rest
    else if CoinDenomination.ofAmount out.nValue = .error then ([], false)
    else
      let (later, finished) := mintOutputs fFilterInvalid txHash (i + 1) rest
      (CoinDenomination.ofAmount out.nValue :: later, finished)

/-- `BlockToZerocoinMintList`, by the denominations of the mints. An output of no
denomination ends it with the mints found so far; the caller does not look at the
returned flag. -/
def blockToZerocoinMintList (fFilterInvalid : Bool) : List CTransaction → List CoinDenomination
  | [] => []
  | tx :: rest =>
    if !tx.isZerocoinMint then blockToZerocoinMintList fFilterInvalid rest
    else if fFilterInvalid && tx.vin.any fun txin => !node.validOutPoint txin.prevout intMax then
      blockToZerocoinMintList fFilterInvalid rest
    else
      let (mints, finished) := node.mintOutputs fFilterInvalid tx.hash 0 tx.vout
      if finished then mints ++ blockToZerocoinMintList fFilterInvalid rest else mints

/-- The inputs `ZerocoinSpendListFromBlock` goes through. -/
def zerocoinSpendInputs (block : CBlock) : List CTxIn :=
  (block.vtx.filter CTransaction.isZerocoinSpend).flatMap CTransaction.zerocoinInputs

def spentDenomination (txin : CTxIn) : CoinDenomination := .ofInt txin.nSequence.toNat

variable (containsSerial : Int → Bool)

/-- The loop of `ZerocoinSpendListFromBlock`, which throws on a spend that does not
decode. -/
def spendList (fFilterInvalid : Bool) : List CTxIn → Except SupplyFailure (List CoinDenomination)
  | [] => .ok []
  | txin :: rest =>
    if fFilterInvalid then
      match node.zerocoin.txInToZerocoinSpend txin with
      | none => .error .undecodable
      | some spend =>
        if containsSerial spend.coinSerialNumber then spendList fFilterInvalid rest
        else (spendList fFilterInvalid rest).map (spentDenomination txin :: ·)
    else (spendList fFilterInvalid rest).map (spentDenomination txin :: ·)

def zerocoinSpendListFromBlock (block : CBlock) (fFilterInvalid : Bool) :
    Except SupplyFailure (List CoinDenomination) :=
  node.spendList containsSerial fFilterInvalid (zerocoinSpendInputs block)

/-- The correction for wrapped serials, made where the supply is below what the
network had before them. -/
def correctWrappedSerials (nHeight : Int) (supply : ZerocoinSupply) : ZerocoinSupply :=
  if node.params.isWrappedSerialCorrection nHeight &&
      supply.getZerocoinSupply <
        node.params.nSupplyBeforeFakeSerial + node.params.getWrapppedSerialInflationAmount then
    fun denom => supply denom + node.params.getWrapppedSerialInflation denom
  else supply

/-- `UpdatezdogecSupply`, from the supply of the parent and the one the entry has. -/
def updateZerocoinSupply (block : CBlock) (nHeight : Int) (previous own : ZerocoinSupply) :
    Except SupplyFailure ZerocoinSupply :=
  if nHeight < node.params.nZerocoinStartHeight then .ok own
  else if nHeight < node.params.nBlockLastGoodCheckpoint then do
    let listMints := node.blockToZerocoinMintList true block.vtx
    let minted ← listMints.foldlM ZerocoinSupply.addMint previous
    -- The branch for the mints is closed only after the spends and the correction.
    let listDenomsSpent ← node.zerocoinSpendListFromBlock containsSerial block true
    let supply ← listDenomsSpent.foldlM ZerocoinSupply.removeSpend minted
    return node.correctWrappedSerials nHeight supply
  else .ok previous

end Node

/-! ## Mints and spends in closed form -/

namespace ZerocoinSupply

variable {supply next : ZerocoinSupply}

variable {denom : CoinDenomination}

theorem addMint_eq_ok :
    supply.addMint denom = .ok next ↔
      denom ≠ .error ∧ next = update supply denom (supply denom + 1) := by
  simp only [addMint, require_bind_eq_ok, decide_eq_true_eq]
  constructor
  · rintro ⟨valid, returned⟩
    cases returned
    exact ⟨valid, rfl⟩
  · rintro ⟨valid, rfl⟩
    exact ⟨valid, rfl⟩

theorem removeSpend_eq_ok :
    supply.removeSpend denom = .ok next ↔
      denom ≠ .error ∧ 1 ≤ supply denom ∧ next = update supply denom (supply denom - 1) := by
  simp only [removeSpend, require_bind_eq_ok, decide_eq_true_eq]
  constructor
  · rintro ⟨valid, enough, returned⟩
    cases returned
    exact ⟨valid, by omega, rfl⟩
  · rintro ⟨valid, enough, rfl⟩
    exact ⟨valid, by omega, rfl⟩

theorem foldlM_addMint_eq_ok {mints : List CoinDenomination} :
    mints.foldlM addMint supply = .ok next ↔
      .error ∉ mints ∧ next = fun denom => supply denom + mints.count denom := by
  induction mints generalizing supply with
  | nil =>
    simp only [List.foldlM_nil, List.not_mem_nil, not_false_eq_true, true_and, List.count_nil,
      Nat.cast_zero, add_zero]
    constructor
    · intro returned
      exact (Except.ok.inj returned).symm
    · rintro rfl
      rfl
  | cons mint rest ih =>
    have counts : ∀ denom, update supply mint (supply mint + 1) denom +
        (rest.count denom : Int) = supply denom + ((mint :: rest).count denom : Int) := by
      intro denom
      by_cases same : mint = denom
      · subst same
        simp only [update_self, List.count_cons_self, Nat.cast_add, Nat.cast_one]
        omega
      · rw [update_of_ne (Ne.symm same), List.count_cons_of_ne same]
    simp only [foldlM_cons_eq_ok, addMint_eq_ok, List.mem_cons, not_or]
    constructor
    · rintro ⟨-, ⟨valid, rfl⟩, later⟩
      obtain ⟨restValid, rfl⟩ := ih.mp later
      exact ⟨⟨Ne.symm valid, restValid⟩, funext counts⟩
    · rintro ⟨⟨valid, restValid⟩, rfl⟩
      exact ⟨_, ⟨Ne.symm valid, rfl⟩, ih.mpr ⟨restValid, (funext counts).symm⟩⟩

theorem foldlM_removeSpend_eq_ok {spends : List CoinDenomination} (nonneg : supply.Nonneg) :
    spends.foldlM removeSpend supply = .ok next ↔
      .error ∉ spends ∧ (∀ denom, spends.count denom ≤ supply denom) ∧
        next = fun denom => supply denom - spends.count denom := by
  induction spends generalizing supply with
  | nil =>
    simp only [List.foldlM_nil, List.not_mem_nil, not_false_eq_true, true_and, List.count_nil,
      Nat.cast_zero, sub_zero]
    constructor
    · intro returned
      exact ⟨nonneg, (Except.ok.inj returned).symm⟩
    · rintro ⟨-, rfl⟩
      rfl
  | cons spent rest ih =>
    have counts : ∀ denom, update supply spent (supply spent - 1) denom -
        (rest.count denom : Int) = supply denom - ((spent :: rest).count denom : Int) := by
      intro denom
      by_cases same : spent = denom
      · subst same
        simp only [update_self, List.count_cons_self, Nat.cast_add, Nat.cast_one]
        omega
      · rw [update_of_ne (Ne.symm same), List.count_cons_of_ne same]
    have keeps : 1 ≤ supply spent → Nonneg (update supply spent (supply spent - 1)) := by
      intro enough denom
      by_cases same : denom = spent
      · subst same
        rw [update_self]
        omega
      · rw [update_of_ne same]
        exact nonneg denom
    simp only [foldlM_cons_eq_ok, removeSpend_eq_ok, List.mem_cons, not_or]
    constructor
    · rintro ⟨-, ⟨valid, enough, rfl⟩, later⟩
      obtain ⟨restValid, restEnough, rfl⟩ := (ih (keeps enough)).mp later
      refine ⟨⟨Ne.symm valid, restValid⟩, fun denom => ?_, funext counts⟩
      have left := counts denom
      have fits := restEnough denom
      omega
    · rintro ⟨⟨valid, restValid⟩, restEnough, rfl⟩
      have enough : 1 ≤ supply spent := by
        have fits := restEnough spent
        rw [List.count_cons_self] at fits
        omega
      refine ⟨_, ⟨Ne.symm valid, enough, rfl⟩, (ih (keeps enough)).mpr ⟨restValid, ?_, ?_⟩⟩
      · intro denom
        have left := counts denom
        have fits := restEnough denom
        omega
      · exact (funext counts).symm

end ZerocoinSupply

namespace Node

variable {node : Node}

variable {containsSerial : Int → Bool}

/-- The invalid-serial list does not name the serial of a spend. A spend that does not
decode has none. -/
def isCounted (node : Node) (containsSerial : Int → Bool) (txin : CTxIn) : Bool :=
  match node.zerocoin.txInToZerocoinSpend txin with
  | none => true
  | some spend => !containsSerial spend.coinSerialNumber

def countedSpends (node : Node) (containsSerial : Int → Bool) (block : CBlock) :
    List CoinDenomination :=
  ((zerocoinSpendInputs block).filter (node.isCounted containsSerial)).map spentDenomination

def countedMints (node : Node) (block : CBlock) (nHeight : Int) : List CoinDenomination :=
  if nHeight < node.params.nBlockLastGoodCheckpoint then node.blockToZerocoinMintList true block.vtx
  else []

theorem spendList_eq_ok {inputs : List CTxIn} {listDenomsSpent : List CoinDenomination}
    (returned : node.spendList containsSerial true inputs = .ok listDenomsSpent) :
    listDenomsSpent = (inputs.filter (node.isCounted containsSerial)).map spentDenomination := by
  induction inputs generalizing listDenomsSpent with
  | nil =>
    cases returned
    rfl
  | cons txin rest ih =>
    simp only [spendList, ↓reduceIte] at returned
    rw [List.filter_cons, isCounted]
    cases decoded : node.zerocoin.txInToZerocoinSpend txin with
    | none =>
      rw [decoded] at returned
      cases returned
    | some spend =>
      simp only [decoded] at returned ⊢
      by_cases invalid : containsSerial spend.coinSerialNumber = true
      · simp only [invalid, ↓reduceIte, Bool.not_true, Bool.false_eq_true] at returned ⊢
        exact ih returned
      · simp only [invalid, Bool.false_eq_true, ↓reduceIte, Bool.not_false,
          List.map_cons] at returned ⊢
        cases later : node.spendList containsSerial true rest with
        | error failure =>
          rw [later] at returned
          cases returned
        | ok list =>
          rw [later] at returned
          cases returned
          rw [ih later]

/-- Below the last checkpoint the supply is the parent's with the block's mints and
without its spends, up to the correction. -/
theorem updateZerocoinSupply_eq_ok {block : CBlock} {nHeight : Int}
    {previous own next : ZerocoinSupply} (nonneg : previous.Nonneg)
    (started : node.params.nZerocoinStartHeight ≤ nHeight)
    (below : nHeight < node.params.nBlockLastGoodCheckpoint)
    (returned : node.updateZerocoinSupply containsSerial block nHeight previous own = .ok next) :
    ∃ supply : ZerocoinSupply,
      (∀ denom, supply denom = previous denom + (node.countedMints block nHeight).count denom -
        (node.countedSpends containsSerial block).count denom) ∧
      supply.Nonneg ∧ next = node.correctWrappedSerials nHeight supply := by
  rw [updateZerocoinSupply, if_neg (by omega), if_pos below] at returned
  obtain ⟨minted, added, later⟩ := bind_eq_ok.mp returned
  obtain ⟨listDenomsSpent, listed, removing⟩ := bind_eq_ok.mp later
  obtain ⟨supply, removed, final⟩ := bind_eq_ok.mp removing
  cases final
  obtain ⟨-, rfl⟩ := ZerocoinSupply.foldlM_addMint_eq_ok.mp added
  have mintedNonneg : ZerocoinSupply.Nonneg fun denom => previous denom +
      ((node.blockToZerocoinMintList true block.vtx).count denom : Int) := by
    intro denom
    exact add_nonneg (nonneg denom) (Int.natCast_nonneg _)
  obtain ⟨-, enough, rfl⟩ := (ZerocoinSupply.foldlM_removeSpend_eq_ok mintedNonneg).mp removed
  have spent : listDenomsSpent = node.countedSpends containsSerial block := spendList_eq_ok listed
  rw [spent] at enough ⊢
  refine ⟨_, fun denom => ?_, fun denom => ?_, rfl⟩
  · rw [countedMints, if_pos below]
  · have fits := enough denom
    omega

end Node

/-! ## Chains of blocks -/

/-- An entry of the chain, by its height and its supply. -/
structure SupplyTip where
  nHeight : Int
  mapZerocoinSupply : ZerocoinSupply

namespace SupplyTip

variable (node : Node) (containsSerial : Int → Bool)

def connect (block : CBlock) (tip : SupplyTip) : Option SupplyTip :=
  match node.updateZerocoinSupply containsSerial block (tip.nHeight + 1) tip.mapZerocoinSupply
    .zero with
  | .ok supply => some ⟨tip.nHeight + 1, supply⟩
  | .error _ => none

/-- A block is accounted for on top of a chain: the supply after it is the parent's with
the block's mints and without its spends, no denomination is overdrawn, and a block that
spends more than there is is refused. -/
structure Accounted (tip : SupplyTip) (block : CBlock) : Prop where
  balanced : ∀ next, connect node containsSerial block tip = some next → ∀ denom, denom ≠ .error →
    next.mapZerocoinSupply denom = tip.mapZerocoinSupply denom +
      (node.countedMints block (tip.nHeight + 1)).count denom -
      (node.countedSpends containsSerial block).count denom
  nonneg : ∀ next, connect node containsSerial block tip = some next →
    ∀ denom, denom ≠ .error → 0 ≤ next.mapZerocoinSupply denom
  refused : ∀ denom, denom ≠ .error →
    tip.mapZerocoinSupply denom + (node.countedMints block (tip.nHeight + 1)).count denom <
      (node.countedSpends containsSerial block).count denom →
    connect node containsSerial block tip = none

def SpendsOnlyBelowCheckpoint (tip : SupplyTip) (block : CBlock) : Prop :=
  tip.nHeight + 1 < node.params.nBlockLastGoodCheckpoint ∨
    ∀ denom, denom ≠ .error → denom ∉ node.countedSpends containsSerial block

def ApartFromCorrection (condition : SupplyTip → CBlock → Prop) (tip : SupplyTip)
    (block : CBlock) : Prop :=
  node.params.isWrappedSerialCorrection (tip.nHeight + 1) = false → condition tip block

variable {node containsSerial}

variable {block : CBlock} {tip next : SupplyTip}

theorem connect_eq_some :
    connect node containsSerial block tip = some next ↔
      ∃ supply, node.updateZerocoinSupply containsSerial block (tip.nHeight + 1)
        tip.mapZerocoinSupply .zero = .ok supply ∧ next = ⟨tip.nHeight + 1, supply⟩ := by
  unfold connect
  constructor
  · intro connected
    cases updated : node.updateZerocoinSupply containsSerial block (tip.nHeight + 1)
        tip.mapZerocoinSupply .zero with
    | error failure =>
      rw [updated] at connected
      cases connected
    | ok supply =>
      rw [updated] at connected
      exact ⟨supply, rfl, (Option.some.inj connected).symm⟩
  · rintro ⟨supply, updated, rfl⟩
    rw [updated]

theorem connect_of_checkpoint {tip : SupplyTip}
    (started : node.params.nZerocoinStartHeight ≤ tip.nHeight + 1)
    (above : node.params.nBlockLastGoodCheckpoint ≤ tip.nHeight + 1) :
    connect node containsSerial block tip = some ⟨tip.nHeight + 1, tip.mapZerocoinSupply⟩ := by
  apply connect_eq_some.mpr
  refine ⟨tip.mapZerocoinSupply, ?_, rfl⟩
  rw [Node.updateZerocoinSupply, if_neg (by omega), if_neg (by omega)]

theorem correctWrappedSerials_nonneg (nHeight : Int) {supply : ZerocoinSupply}
    (nonneg : supply.Nonneg) : (node.correctWrappedSerials nHeight supply).Nonneg := by
  unfold Node.correctWrappedSerials
  split_ifs with corrected
  · intro denom
    have inflation : 0 ≤ node.params.getWrapppedSerialInflation denom := by
      unfold ChainParams.getWrapppedSerialInflation
      split_ifs
      · cases denom <;> decide
      · exact le_refl 0
    exact add_nonneg (nonneg denom) inflation
  · exact nonneg

theorem connect_nonneg (started : node.params.nZerocoinStartHeight ≤ tip.nHeight + 1)
    (nonneg : tip.mapZerocoinSupply.Nonneg)
    (connected : connect node containsSerial block tip = some next) :
    next.mapZerocoinSupply.Nonneg := by
  by_cases below : tip.nHeight + 1 < node.params.nBlockLastGoodCheckpoint
  · obtain ⟨supply, updated, rfl⟩ := connect_eq_some.mp connected
    obtain ⟨uncorrected, -, balance, rfl⟩ :=
      Node.updateZerocoinSupply_eq_ok nonneg started below updated
    exact correctWrappedSerials_nonneg _ balance
  · rw [connect_of_checkpoint started (by omega)] at connected
    cases connected
    exact nonneg

theorem accounted_iff {tip : SupplyTip}
    (started : node.params.nZerocoinStartHeight ≤ tip.nHeight + 1)
    (nonneg : tip.mapZerocoinSupply.Nonneg)
    (uncorrected : node.params.isWrappedSerialCorrection (tip.nHeight + 1) = false) :
    Accounted node containsSerial tip block ↔
      SpendsOnlyBelowCheckpoint node containsSerial tip block := by
  by_cases below : tip.nHeight + 1 < node.params.nBlockLastGoodCheckpoint
  · refine ⟨fun _ => .inl below, fun _ => ?_⟩
    have balance : ∀ next, connect node containsSerial block tip = some next → ∀ denom,
        next.mapZerocoinSupply denom = tip.mapZerocoinSupply denom +
          (node.countedMints block (tip.nHeight + 1)).count denom -
          (node.countedSpends containsSerial block).count denom := by
      intro next connected denom
      obtain ⟨supply, updated, rfl⟩ := connect_eq_some.mp connected
      obtain ⟨result, balanced, -, rfl⟩ :=
        Node.updateZerocoinSupply_eq_ok nonneg started below updated
      simp only [Node.correctWrappedSerials, uncorrected, Bool.false_and, Bool.false_eq_true,
        ↓reduceIte]
      exact balanced denom
    refine ⟨fun next connected denom _ => balance next connected denom,
      fun next connected denom _ => connect_nonneg started nonneg connected denom, ?_⟩
    intro denom _ overspent
    cases connected : connect node containsSerial block tip with
    | none => rfl
    | some next =>
      have after := balance next connected denom
      have solvent := connect_nonneg started nonneg connected denom
      omega
  · have connected : connect node containsSerial block tip =
        some ⟨tip.nHeight + 1, tip.mapZerocoinSupply⟩ :=
      connect_of_checkpoint started (Int.not_lt.mp below)
    have noMints : node.countedMints block (tip.nHeight + 1) = [] := if_neg below
    constructor
    · intro accounted
      refine .inr fun denom valid spent => ?_
      have spends := List.count_pos_iff.mpr spent
      have after := accounted.balanced _ connected denom valid
      simp only [noMints, List.count_nil] at after
      omega
    · intro condition
      have unspent := condition.resolve_left below
      have noSpends : ∀ denom, denom ≠ .error →
          (node.countedSpends containsSerial block).count denom = 0 :=
        fun denom valid => List.count_eq_zero.mpr (unspent denom valid)
      refine ⟨?_, ?_, ?_⟩
      · intro next other denom valid
        rw [connected] at other
        cases other
        rw [noMints, noSpends denom valid, List.count_nil]
        simp
      · intro next other denom valid
        rw [connected] at other
        cases other
        exact nonneg denom
      · intro denom valid overspent
        have start := nonneg denom
        rw [noMints, noSpends denom valid, List.count_nil] at overspent
        omega

/-- **Supply accounting.** From the start height on, and apart from the correction for
wrapped serials, every block of a chain is accounted for exactly if no block from the
last checkpoint on spends a coin. -/
theorem accounted_iff_of_run (blocks : List CBlock) (tip : SupplyTip)
    (started : node.params.nZerocoinStartHeight ≤ tip.nHeight + 1)
    (nonneg : tip.mapZerocoinSupply.Nonneg) :
    RunMeets (connect node containsSerial)
        (ApartFromCorrection node (Accounted node containsSerial)) blocks tip ↔
      RunMeets (connect node containsSerial)
        (ApartFromCorrection node (SpendsOnlyBelowCheckpoint node containsSerial)) blocks tip := by
  induction blocks generalizing tip with
  | nil => exact Iff.rfl
  | cons block rest ih =>
    have here : ApartFromCorrection node (Accounted node containsSerial) tip block ↔
        ApartFromCorrection node (SpendsOnlyBelowCheckpoint node containsSerial) tip block :=
      forall_congr' fun uncorrected => accounted_iff started nonneg uncorrected
    simp only [RunMeets]
    rw [here]
    apply and_congr_right
    intro _
    cases connected : connect node containsSerial block tip with
    | none => exact Iff.rfl
    | some next =>
      have higher : next.nHeight = tip.nHeight + 1 := by
        obtain ⟨-, -, rfl⟩ := connect_eq_some.mp connected
        rfl
      exact ih next (by omega) (connect_nonneg started nonneg connected)

def checkpointedNode : Node :=
  { Node.sample .regtest with zerocoin := Node.downloadingNode.zerocoin }

def unmintedTip : SupplyTip := ⟨intMax - 1, .zero⟩

/-- Zerocoins are used from the first block on. -/
def zerocoinNode : Node :=
  { checkpointedNode with params := { ChainParams.regtest with nZerocoinStartHeight := 0 } }

def mintBlock : CBlock :=
  { Node.forgedBlock with
    vtx := Node.forgedBlock.vtx.take 1 ++
      [⟨4, 1, [⟨⟨5, 0⟩, [], 0xffffffff⟩], [.of (5 * COIN) [Op.OP_ZEROCOINMINT]], 0⟩] }

/-- A coin of five is minted and then spent. -/
theorem accounted_of_run_mintBlock :
    RunMeets (connect zerocoinNode fun _ => false)
        (ApartFromCorrection zerocoinNode (Accounted zerocoinNode fun _ => false))
        [mintBlock, Node.forgedBlock] ⟨0, .zero⟩ ∧
      zerocoinNode.countedMints mintBlock 1 = [.five] ∧
      zerocoinNode.countedSpends (fun _ => false) Node.forgedBlock = [.five] ∧
      (run (connect zerocoinNode fun _ => false) [mintBlock, Node.forgedBlock]
        ⟨0, .zero⟩).isSome := by
  refine ⟨?_, by decide, by decide, by decide⟩
  apply (accounted_iff_of_run [mintBlock, Node.forgedBlock] ⟨0, .zero⟩ (by decide)
    fun _ => le_refl 0).mpr
  exact ⟨fun _ => .inl (by decide), fun _ => .inl (by decide), trivial⟩

/-- A coin of five is spent although none was ever minted, and the block is let through. -/
theorem not_accounted_forgedBlock :
    ¬RunMeets (connect checkpointedNode fun _ => false)
      (ApartFromCorrection checkpointedNode (Accounted checkpointedNode fun _ => false))
      [Node.forgedBlock] unmintedTip := by
  intro meets
  have accounted := meets.1 (by decide)
  have refused := accounted.refused .five (by decide) (by decide)
  cases refused

end SupplyTip

end DogeCash
