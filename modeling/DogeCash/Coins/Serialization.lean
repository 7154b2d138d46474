import DogeCash.Coins.Compressor
import DogeCash.Foundation.BitMask

/-! # The database record of a `CCoins`

A record starts with the version and a code word: the two kind bits, whether the first two
outputs are unspent, and how many non-zero bytes the mask has that says which of the others
are; one less than that where neither of the first two is, as it is then not zero. After the
mask come the unspent outputs and the height. The counts are natural numbers: the code keeps
them in 32 bits, and a transaction has at most `MAX_SIZE` outputs.
-/

namespace DogeCash

open Op
open List (map_append map_cons mem_map mem_range range_succ)
open Option (bind_some getD_some map_some)
open CTxOut (null isNull)

namespace CCoins

variable (keys : PubKeyOps) (coins : CCoins)

/-- Whether `vout` has an output there that is not null. -/
def unspent (index : ℕ) : Bool := (coins.vout[index]?).any fun out => !out.isNull

/-- A byte of the mask, `chAvail`: which of eight outputs are unspent. -/
def chAvail (b : ℕ) : UInt8 :=
  UInt8.ofNat (BitMask.setBits (fun i => coins.unspent (2 + (b * 8 + i))) 8)

/-- One round of the loop of `CCoins::CalcMaskSize`: `nLastUsedByte` and `nNonzeroBytes`. -/
def calcMaskByte (found : ℕ × ℕ) (b : ℕ) : ℕ × ℕ :=
  let fZero := (List.range 8).all fun i => !coins.unspent (2 + (b * 8 + i))
  if fZero then found else (b + 1, found.2 + 1)

/-- `CCoins::CalcMaskSize`: the number of bytes of the mask and how many are not zero. -/
def calcMaskSize : ℕ × ℕ :=
  (List.range ((coins.vout.length - 2 + 7) / 8)).foldl coins.calcMaskByte (0, 0)

def codeFlags : ℕ :=
  (if coins.fCoinBase then 1 else 0) + (if coins.fCoinStake then 2 else 0) +
    (if coins.unspent 0 then 4 else 0) + (if coins.unspent 1 then 8 else 0)

/-- `nCode`: the multiple of the mask code differs between the two methods that compute it. -/
def headerCode (multiple : ℕ) : ℕ :=
  multiple * (coins.calcMaskSize.2 - (if coins.unspent 0 || coins.unspent 1 then 0 else 1)) +
    coins.codeFlags

/-- `assert(fFirst || fSecond || nMaskCode)` -/
def headerAssertion : Bool := coins.unspent 0 || coins.unspent 1 || coins.calcMaskSize.2 != 0

/-- What is written for one position of `vout`. -/
def writeOutput (index : ℕ) : List UInt8 :=
  match coins.vout[index]? with
  | some out => if out.isNull then [] else CTxOutCompressor.serialize keys out
  | none => []

/-- `CCoins::Serialize`; `none` where the assertion fails. -/
def serialize : Option (List UInt8) :=
  if coins.headerAssertion then
    some (writeVarInt coins.nVersion.toInt ++
      (writeVarInt (coins.headerCode 16) ++
        ((List.range coins.calcMaskSize.1).map coins.chAvail ++
          ((List.range coins.vout.length).flatMap (coins.writeOutput keys) ++
            writeVarInt coins.nHeight.toInt))))
  else none

def unpackAvail (chAvail : UInt8) : List Bool := (List.range 8).map chAvail.toNat.testBit

/-- The loop that reads the outputs into null ones. -/
def readOutputs : List Bool → List UInt8 → Option (List CTxOut × List UInt8)
  | [], s => some ([], s)
  | false :: vAvail, s => (readOutputs vAvail s).map fun (vout, s) => (null :: vout, s)
  | true :: vAvail, s =>
    match CTxOutCompressor.unserialize keys null s with
    | none => none
    | some (out, s) => (readOutputs vAvail s).map fun (vout, s) => (out :: vout, s)

/-- `CCoins::Unserialize`; `none` where the stream ends too early. -/
def unserialize (s : List UInt8) : Option (CCoins × List UInt8) := do
  let (nVersion, s) ← readVarInt s
  let (nCode, s) ← readVarInt s
  let first := nCode.testBit 2
  let second := nCode.testBit 3
  let nMaskCode := nCode / 16 + if first || second then 0 else 1
  let (mask, s) ← BitMask.takeCounted (fun chAvail => chAvail != 0) nMaskCode s
  let (vout, s) ← readOutputs keys ([first, second] ++ mask.flatMap unpackAvail) s
  let (nHeight, s) ← readVarInt s
  return (cleanup
    { fCoinBase := nCode.testBit 0
      fCoinStake := nCode.testBit 1
      vout := vout
      nHeight := Int32.ofNat nHeight
      nVersion := Int32.ofNat nVersion }, s)

/-! ## The mask -/

variable {coins}

theorem chAvail_testBit (b i : ℕ) (inside : i < 8) :
    (coins.chAvail b).toNat.testBit i = coins.unspent (2 + (b * 8 + i)) := by
  rw [chAvail, UInt8.toNat_ofNat', Nat.mod_eq_of_lt (BitMask.setBits_lt _ 8),
    BitMask.testBit_setBits, decide_eq_true inside, Bool.true_and]

theorem chAvail_eq_zero_iff (b : ℕ) :
    coins.chAvail b = 0 ↔ ∀ i < 8, coins.unspent (2 + (b * 8 + i)) = false := by
  rw [← BitMask.setBits_eq_zero_iff (fun i => coins.unspent (2 + (b * 8 + i))), chAvail,
    ← UInt8.toNat_inj, UInt8.toNat_ofNat', Nat.mod_eq_of_lt (BitMask.setBits_lt _ 8)]
  rfl

theorem unpackAvail_chAvail (b : ℕ) :
    unpackAvail (coins.chAvail b) = (List.range 8).map fun i => coins.unspent (2 + (b * 8 + i)) :=
  List.map_congr_left fun i inside => chAvail_testBit b i (mem_range.mp inside)

/-- What the loop of `CalcMaskSize` has found in the first `k` bytes. -/
structure MaskFound (coins : CCoins) (k : ℕ) (found : ℕ × ℕ) : Prop where
  le : found.1 ≤ k
  count : ((List.range k).map coins.chAvail).countP (· != 0) = found.2
  ends : found.1 = 0 ∨ coins.chAvail (found.1 - 1) ≠ 0
  zeros : ∀ b, found.1 ≤ b → b < k → coins.chAvail b = 0

theorem maskFound_loop (k : ℕ) :
    MaskFound coins k ((List.range k).foldl coins.calcMaskByte (0, 0)) := by
  induction k with
  | zero =>
    exact ⟨Nat.le_refl 0, rfl, .inl rfl, fun b _ inside => absurd inside (Nat.not_lt_zero b)⟩
  | succ k ih =>
    rw [range_succ, List.foldl_append, List.foldl_cons, List.foldl_nil]
    generalize (List.range k).foldl coins.calcMaskByte (0, 0) = found at ih ⊢
    have isZero : ((List.range 8).all fun i => !coins.unspent (2 + (k * 8 + i))) = true ↔
        coins.chAvail k = 0 := by
      simp [chAvail_eq_zero_iff, mem_range]
    have counted : ((List.range (k + 1)).map coins.chAvail).countP (· != 0) =
        found.2 + if coins.chAvail k = 0 then 0 else 1 := by
      rw [range_succ, map_append, List.countP_append, ih.count]
      by_cases zero : coins.chAvail k = 0 <;> simp [zero]
    rw [calcMaskByte]
    by_cases zero : coins.chAvail k = 0
    · rw [if_pos (isZero.mpr zero)]
      refine ⟨Nat.le_succ_of_le ih.le, by rw [counted, if_pos zero]; rfl, ih.ends, ?_⟩
      intro b from_ inside
      rcases Nat.lt_succ_iff_lt_or_eq.mp inside with before | rfl
      · exact ih.zeros b from_ before
      · exact zero
    · rw [if_neg (mt isZero.mp zero)]
      exact ⟨Nat.le_refl _, by rw [counted, if_neg zero], .inr zero,
        fun b from_ inside => absurd inside (Nat.not_lt.mpr from_)⟩

theorem maskFound (coins : CCoins) :
    MaskFound coins ((coins.vout.length - 2 + 7) / 8) coins.calcMaskSize := maskFound_loop _

variable {index : ℕ}

theorem unspent_of_length_le (beyond : coins.vout.length ≤ index) :
    coins.unspent index = false := by
  rw [unspent, List.getElem?_eq_none beyond]
  rfl

theorem unspent_beyond (beyond : 2 + coins.calcMaskSize.1 * 8 ≤ index) :
    coins.unspent index = false := by
  by_cases inside : index < coins.vout.length
  · have zero := (maskFound coins).zeros ((index - 2) / 8) (by omega) (by omega)
    have clear := (chAvail_eq_zero_iff _).mp zero ((index - 2) % 8) (by omega)
    rwa [show 2 + ((index - 2) / 8 * 8 + (index - 2) % 8) = index by omega] at clear
  · exact unspent_of_length_le (Nat.le_of_not_lt inside)

theorem mask_countP (coins : CCoins) :
    ((List.range coins.calcMaskSize.1).map coins.chAvail).countP (· != 0) =
      coins.calcMaskSize.2 := by
  have found := maskFound coins
  obtain ⟨d, size⟩ := Nat.exists_eq_add_of_le found.le
  have noOthers : (((List.range d).map (coins.calcMaskSize.1 + ·)).map coins.chAvail).countP
      (· != 0) = 0 := by
    rw [List.countP_eq_zero]
    simp only [mem_map, mem_range]
    rintro _ ⟨_, ⟨b, inside, rfl⟩, rfl⟩
    rw [found.zeros _ (Nat.le_add_right _ _) (by omega)]
    decide
  rw [← found.count, size, List.range_add, map_append, List.countP_append, noOthers, Nat.add_zero]

theorem mask_ends (coins : CCoins) :
    ∀ last ∈ ((List.range coins.calcMaskSize.1).map coins.chAvail).getLast?,
      (last != 0) = true := by
  intro last mem
  rcases (maskFound coins).ends with none_ | used
  · rw [none_] at mem
    cases mem
  · obtain ⟨size, same⟩ : ∃ size, coins.calcMaskSize.1 = size + 1 := by
      cases known : coins.calcMaskSize.1 with
      | zero =>
        rw [known] at mem
        cases mem
      | succ size => exact ⟨size, rfl⟩
    rw [same, Nat.add_sub_cancel] at used
    rw [same, range_succ, map_append, List.map_singleton, List.getLast?_concat] at mem
    cases mem
    exact bne_iff_ne.mpr used

/-! ## Reading a record -/

theorem vAvail_eq (coins : CCoins) :
    [coins.unspent 0, coins.unspent 1] ++
        ((List.range coins.calcMaskSize.1).map coins.chAvail).flatMap unpackAvail =
      (List.range (2 + coins.calcMaskSize.1 * 8)).map coins.unspent := by
  simp only [List.flatMap_map, unpackAvail_chAvail]
  rw [BitMask.flatMap_range_mul (fun i => coins.unspent (2 + i)), List.range_add, map_append,
    List.map_map]
  rfl

def slot (coins : CCoins) (index : ℕ) : CTxOut :=
  if coins.unspent index then coins.vout.getD index null else null

theorem exists_of_unspent (unspent : coins.unspent index = true) :
    ∃ out, coins.vout[index]? = some out ∧ out.isNull = false := by
  rw [CCoins.unspent, Option.any_eq_true] at unspent
  obtain ⟨out, there, kept⟩ := unspent
  exact ⟨out, there, by simpa using kept⟩

theorem writeOutput_of_spent (spent : coins.unspent index = false) :
    coins.writeOutput keys index = [] := by
  rw [writeOutput]
  rw [unspent] at spent
  split
  · rename_i out there
    rw [there] at spent
    exact if_pos (by simpa using spent)
  · rfl

/-- Every non-null output is read back from what `CTxOutCompressor` writes. -/
def OutputsRoundTrip (keys : PubKeyOps) (coins : CCoins) : Prop :=
  ∀ out ∈ coins.vout, out.isNull = false → ∀ s,
    CTxOutCompressor.unserialize keys null (CTxOutCompressor.serialize keys out ++ s) =
      some (out, s)

theorem readOutputs_writeOutput {keys : PubKeyOps} (roundTrip : OutputsRoundTrip keys coins)
    (positions : List ℕ) (s : List UInt8) :
    readOutputs keys (positions.map coins.unspent)
        (positions.flatMap (coins.writeOutput keys) ++ s) =
      some (positions.map coins.slot, s) := by
  induction positions with
  | nil => rfl
  | cons index others ih =>
    rw [map_cons, map_cons, List.flatMap_cons, List.append_assoc]
    cases unspent : coins.unspent index with
    | false =>
      rw [writeOutput_of_spent keys unspent, List.nil_append, readOutputs, ih, slot, unspent]
      rfl
    | true =>
      obtain ⟨out, there, kept⟩ := exists_of_unspent unspent
      have written : coins.writeOutput keys index = CTxOutCompressor.serialize keys out := by
        rw [writeOutput, there]
        exact if_neg (by rw [kept]; decide)
      have same : coins.slot index = out := by
        rw [slot, if_pos unspent, List.getD_eq_getElem?_getD, there]
        rfl
      rw [written, readOutputs, roundTrip out (List.mem_of_getElem? there) kept]
      dsimp only
      rw [ih, same]
      rfl

theorem headerCode_bits (coins : CCoins) :
    (coins.headerCode 16).testBit 0 = coins.fCoinBase ∧
      (coins.headerCode 16).testBit 1 = coins.fCoinStake ∧
      (coins.headerCode 16).testBit 2 = coins.unspent 0 ∧
      (coins.headerCode 16).testBit 3 = coins.unspent 1 ∧
      coins.headerCode 16 / 16 =
        coins.calcMaskSize.2 - if coins.unspent 0 || coins.unspent 1 then 0 else 1 := by
  have small : coins.codeFlags < 16 := by
    rw [codeFlags]
    split_ifs <;> decide
  have low (bit : ℕ) (inside : bit < 4) :
      (coins.headerCode 16).testBit bit = coins.codeFlags.testBit bit := by
    rw [headerCode, Nat.testBit_two_pow_mul_add (i := 4) _ small, if_pos inside]
  rw [low 0 (by decide), low 1 (by decide), low 2 (by decide), low 3 (by decide), headerCode,
    Nat.mul_add_div (by decide), Nat.div_eq_of_lt small, add_zero, codeFlags]
  cases coins.fCoinBase <;> cases coins.fCoinStake <;> cases coins.unspent 0 <;>
    cases coins.unspent 1 <;> exact ⟨rfl, rfl, rfl, rfl, rfl⟩

theorem headerCode_maskCode (asserted : coins.headerAssertion = true) :
    coins.headerCode 16 / 16 +
        (if (coins.headerCode 16).testBit 2 || (coins.headerCode 16).testBit 3 then 0 else 1) =
      coins.calcMaskSize.2 := by
  obtain ⟨-, -, first, second, bytes⟩ := headerCode_bits coins
  rw [first, second, bytes]
  rw [headerAssertion] at asserted
  cases front : coins.unspent 0 || coins.unspent 1 with
  | true => rfl
  | false =>
    rw [front, Bool.false_or, bne_iff_ne] at asserted
    simp only [Bool.false_eq_true, ↓reduceIte]
    omega

theorem headerAssertion_of_not_isPruned (kept : coins.isPruned = false) :
    coins.headerAssertion = true := by
  by_contra failed
  have nothing : coins.unspent 0 = false ∧ coins.unspent 1 = false ∧ coins.calcMaskSize.2 = 0 := by
    simpa [headerAssertion, and_assoc] using failed
  obtain ⟨first, second, none_⟩ := nothing
  have noByte : ∀ b < coins.calcMaskSize.1, coins.chAvail b = 0 := by
    intro b inside
    have := List.countP_eq_zero.mp ((mask_countP coins).trans none_) _
      (List.mem_map_of_mem (mem_range.mpr inside))
    simpa using this
  have spent : ∀ index, coins.unspent index = false := by
    intro index
    by_cases beyond : 2 + coins.calcMaskSize.1 * 8 ≤ index
    · exact unspent_beyond beyond
    · by_cases front : index < 2
      · obtain rfl | rfl : index = 0 ∨ index = 1 := by omega
        · exact first
        · exact second
      · have clear := (chAvail_eq_zero_iff _).mp (noByte ((index - 2) / 8) (by omega))
          ((index - 2) % 8) (by omega)
        rwa [show 2 + ((index - 2) / 8 * 8 + (index - 2) % 8) = index by omega] at clear
  have pruned : coins.isPruned = true := by
    rw [isPruned, List.all_eq_true]
    intro out mem
    obtain ⟨index, there⟩ := List.getElem?_of_mem mem
    have clear := spent index
    rw [unspent, there] at clear
    simpa using clear
  rw [kept] at pruned
  cases pruned

/-- The spent outputs as `SetNull` leaves them. -/
def resetSpent (coins : CCoins) : CCoins :=
  { coins with vout := coins.vout.map fun out => if out.isNull then null else out }

theorem resetSpent_eq (canonical : Slots.Canonical isNull null coins.vout) :
    coins.resetSpent = coins := by
  have same : (coins.vout.map fun out => if out.isNull then null else out) = coins.vout := by
    rw [List.map_congr_left (g := id), List.map_id]
    intro out mem
    split
    · rename_i spent
      exact (canonical out mem spent).symm
    · rfl
  rw [resetSpent, same]

theorem isNull_reset (out : CTxOut) :
    (if out.isNull then null else out).isNull = out.isNull := by
  by_cases spent : out.isNull = true
  · rw [if_pos spent, spent]
    rfl
  · rw [if_neg spent]

theorem resetSpent_getD (coins : CCoins) (index : ℕ) :
    coins.resetSpent.vout.getD index null = coins.slot index := by
  rw [resetSpent, slot, unspent, List.getD_eq_getElem?_getD, List.getD_eq_getElem?_getD,
    List.getElem?_map]
  cases coins.vout[index]? with
  | none => rfl
  | some out =>
    simp only [map_some, getD_some, Option.any_some]
    cases out.isNull <;> rfl

theorem rdropWhile_slots (trimmed : Slots.Trimmed isNull coins.vout) :
    ((List.range (2 + coins.calcMaskSize.1 * 8)).map coins.slot).rdropWhile isNull =
      coins.resetSpent.vout := by
  have canonical : Slots.Canonical isNull null
      ((List.range (2 + coins.calcMaskSize.1 * 8)).map coins.slot) := by
    intro out mem spent
    obtain ⟨index, -, rfl⟩ := mem_map.mp mem
    cases unspent : coins.unspent index with
    | false =>
      rw [slot, unspent]
      rfl
    | true =>
      obtain ⟨out, there, kept⟩ := exists_of_unspent unspent
      rw [slot, if_pos unspent, List.getD_eq_getElem?_getD, there, getD_some] at spent
      rw [kept] at spent
      cases spent
  have trimmed' : Slots.Trimmed isNull coins.resetSpent.vout := by
    refine List.rdropWhile_eq_self_iff.mpr fun some_ => ?_
    have some' : coins.vout ≠ [] := fun empty => some_ (by rw [resetSpent, empty]; rfl)
    simp only [resetSpent, List.getLast_map, isNull_reset]
    exact List.rdropWhile_eq_self_iff.mp trimmed some'
  apply Slots.eq_of_getD_eq CTxOut.isNull_null (Slots.trimmed_rdropWhile _) trimmed'
  intro index
  rw [Slots.getD_rdropWhile canonical, resetSpent_getD]
  by_cases inside : index < 2 + coins.calcMaskSize.1 * 8
  · rw [List.getD_eq_getElem?_getD, List.getElem?_map, List.getElem?_range inside]
    rfl
  · rw [List.getD_eq_default _ _ (by simpa using inside), slot,
      unspent_beyond (Nat.le_of_not_lt inside)]
    rfl

/-- **The record of a `CCoins` round-trips.** What `Serialize` writes of an entry with an unspent
output and none that is null at the end is read back as this entry, whatever follows it: the
kind, the height, the version and every unspent output at its position, the others null. -/
theorem record_roundTrip {keys : PubKeyOps} {coins : CCoins} (kept : coins.isPruned = false)
    (trimmed : Slots.Trimmed isNull coins.vout) (version : 0 ≤ coins.nVersion)
    (height : 0 ≤ coins.nHeight) (roundTrip : OutputsRoundTrip keys coins) :
    ∃ bytes, serialize keys coins = some bytes ∧
      (∀ s, unserialize keys (bytes ++ s) = some (coins.resetSpent, s)) ∧
      (Slots.Canonical isNull null coins.vout → coins.resetSpent = coins) := by
  have asserted := headerAssertion_of_not_isPruned kept
  refine ⟨_, if_pos asserted, ?_, resetSpent_eq⟩
  intro s
  obtain ⟨coinBase, coinStake, first, second, -⟩ := headerCode_bits coins
  have mask := BitMask.takeCounted_append (mask_ends coins)
    ((List.range coins.vout.length).flatMap (coins.writeOutput keys) ++
      (writeVarInt coins.nHeight.toInt ++ s))
  rw [mask_countP] at mask
  have outputs : (List.range coins.vout.length).flatMap (coins.writeOutput keys) =
      (List.range (2 + coins.calcMaskSize.1 * 8)).flatMap (coins.writeOutput keys) :=
    BitMask.flatMap_range_eq
      (fun _ beyond => writeOutput_of_spent keys (unspent_of_length_le beyond))
      (fun _ beyond => writeOutput_of_spent keys (unspent_beyond beyond))
  simp only [List.append_assoc]
  rw [unserialize, readVarInt_writeVarInt (Int32.le_iff_toInt_le.mp version)]
  simp only [Option.bind_eq_bind, bind_some]
  rw [readVarInt_writeVarInt (Int.natCast_nonneg _), bind_some]
  simp only [Int.toNat_natCast, headerCode_maskCode asserted]
  rw [mask]
  simp only [bind_some, first, second, vAvail_eq, outputs]
  rw [readOutputs_writeOutput roundTrip, bind_some]
  rw [readVarInt_writeVarInt (Int32.le_iff_toInt_le.mp height), bind_some]
  simp only [coinBase, coinStake, cleanup, rdropWhile_slots trimmed]
  change some (CCoins.mk _ _ _ (Int32.ofNat coins.nHeight.toNatClampNeg)
    (Int32.ofNat coins.nVersion.toNatClampNeg), s) = _
  rw [Int32.ofNat_toNatClampNeg _ height, Int32.ofNat_toNatClampNeg _ version]
  rfl

/-- An entry with twenty outputs of which three are left. -/
def sparse : CCoins where
  fCoinStake := true
  vout := (List.range 20).map fun index =>
    if index = 1 ∨ index = 11 ∨ index = 19 then .of (1000 * index) [OP_HASH160] else .null
  nHeight := 120891
  nVersion := 1

theorem outputsRoundTrip_sparse (keys : PubKeyOps) (inverts : keys.Inverts) :
    OutputsRoundTrip keys sparse := by
  intro out mem kept s
  have plain : ∀ out ∈ sparse.vout, out.isNull = false → 0 ≤ out.nValue ∧
      out.nValue ≤ 21000000 * COIN ∧ List.length out.scriptPubKey ≤ maxScriptSize ∧
      out.nRounds = -10 := by decide
  obtain ⟨nonneg, small, short, rounds⟩ := plain out mem kept
  rw [CTxOutCompressor.unserialize_serialize inverts nonneg small, if_neg (Nat.not_lt.mpr short)]
  cases out
  cases rounds
  rfl

theorem record_roundTrip_sparse :
    ∃ bytes, serialize basePointOps sparse = some bytes ∧
      (∀ s, unserialize basePointOps (bytes ++ s) = some (sparse.resetSpent, s)) ∧
      (Slots.Canonical isNull null sparse.vout → sparse.resetSpent = sparse) :=
  record_roundTrip (by decide) (by unfold Slots.Trimmed; decide) (by decide) (by decide)
    (outputsRoundTrip_sparse _ basePointOps_inverts)

/-! ## The size of a record -/

/-- `CTxOutCompressor::GetSerializeSize`: a `CSizeComputer` counts what `Serialize` writes. -/
def outputSize (keys : PubKeyOps) (coins : CCoins) (index : ℕ) : ℕ :=
  (coins.writeOutput keys index).length

/-- `CCoins::GetSerializeSize`; `none` where the assertion fails. -/
def getSerializeSize (keys : PubKeyOps) (coins : CCoins) : Option ℕ :=
  if coins.headerAssertion then
    some (getSizeOfVarInt coins.nVersion.toInt + getSizeOfVarInt (coins.headerCode 8) +
      coins.calcMaskSize.1 + ((List.range coins.vout.length).map (coins.outputSize keys)).sum +
      getSizeOfVarInt coins.nHeight.toInt)
  else none

theorem getSerializeSize_eq_iff (keys : PubKeyOps) (kept : coins.isPruned = false) :
    getSerializeSize keys coins = (serialize keys coins).map List.length ↔
      getSizeOfVarInt (coins.headerCode 8) = getSizeOfVarInt (coins.headerCode 16) := by
  have asserted := headerAssertion_of_not_isPruned kept
  have outputs : ((List.range coins.vout.length).flatMap (coins.writeOutput keys)).length =
      ((List.range coins.vout.length).map (coins.outputSize keys)).sum := by
    rw [List.length_flatMap]
    rfl
  rw [getSerializeSize, if_pos asserted, serialize, if_pos asserted, map_some, Option.some.injEq]
  simp only [List.length_append, writeVarInt_length, List.length_map, List.length_range, outputs]
  omega

def unspentGroups (coins : CCoins) : ℕ :=
  (List.range ((coins.vout.length - 2 + 7) / 8)).countP fun b =>
    (List.range 8).any fun i => coins.unspent (2 + (b * 8 + i))

/-- The groups the code word counts: one less where neither of the first two outputs is unspent. -/
def codedGroups (coins : CCoins) : ℕ :=
  coins.unspentGroups - if coins.unspent 0 || coins.unspent 1 then 0 else 1

theorem calcMaskSize_eq_unspentGroups (coins : CCoins) :
    coins.calcMaskSize.2 = coins.unspentGroups := by
  rw [← (maskFound coins).count, List.countP_map, unspentGroups]
  apply List.countP_congr
  intro b _
  rw [Function.comp_apply, bne_iff_ne, ne_eq, chAvail_eq_zero_iff, List.any_eq_true]
  simp [mem_range, not_forall]

/-- **When the size is right.** `GetSerializeSize` gives the number of bytes that `Serialize`
writes exactly when no limit between lengths of a variable-length integer, such as 127 or 16511,
lies from eight times to below sixteen times the coded groups, the flags added to both. -/
theorem getSerializeSize_exact_iff (keys : PubKeyOps) {coins : CCoins}
    (kept : coins.isPruned = false) :
    getSerializeSize keys coins = (serialize keys coins).map List.length ↔
      ∀ k, ¬ (8 * coins.codedGroups + coins.codeFlags ≤ varIntLimit k ∧
        varIntLimit k < 16 * coins.codedGroups + coins.codeFlags) := by
  have code (multiple : ℕ) :
      coins.headerCode multiple = multiple * coins.codedGroups + coins.codeFlags := by
    rw [headerCode, calcMaskSize_eq_unspentGroups, codedGroups]
  rw [getSerializeSize_eq_iff keys kept, code, code, getSizeOfVarInt_eq_iff (by omega)]
  exact forall_congr' fun k => by omega

theorem getSerializeSize_exact_sparse : getSerializeSize basePointOps sparse =
    (serialize basePointOps sparse).map List.length := by
  refine (getSerializeSize_exact_iff basePointOps (by decide)).mpr fun k => ?_
  have groups : sparse.codedGroups = 2 := by decide
  have flags : sparse.codeFlags = 10 := by decide
  cases k with
  | zero => decide
  | succ k =>
    rw [varIntLimit]
    omega

def unspent66 : CCoins where
  vout := List.replicate 66 (.of 1 [])
  nVersion := 1

/-- Its code word takes one byte in `GetSerializeSize` and two in the record. -/
theorem getSerializeSize_ne_unspent66 :
    ¬ ∀ (keys : PubKeyOps) (coins : CCoins), coins.isPruned = false →
      getSerializeSize keys coins = (serialize keys coins).map List.length := by
  intro exact_
  have same := (getSerializeSize_eq_iff basePointOps (by decide)).mp
    (exact_ basePointOps unspent66 (by decide))
  have one := (getSizeOfVarInt_le_iff 76 0).mpr (by decide)
  exact absurd ((getSizeOfVarInt_le_iff 140 0).mp (same ▸ one)) (by decide)

end CCoins

end DogeCash
