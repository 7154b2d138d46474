import DogeCash.Foundation.Codec
import DogeCash.Primitives.Serialize

/-! # Reading transactions

`Unserialize`, as the serialization methods of `primitives/transaction.h` and the templates of
`serialize.h` give it. The number of elements of a vector has only one form that is accepted,
and it is limited; the elements are read in chunks. Every reader accepts exactly what is
written for the objects whose vectors are not too long, and what is only in memory has its
initial value in what is read.
-/

namespace DogeCash

open LittleEndian (bytes)
open Reader (codes_number codes_refuse pure_eq_some number chunked many take)
open List (append_assoc)

/-- The sizes of the types of elements in memory, which limit the chunks. -/
structure ElementSizes where
  ctxIn : ℕ
  ctxOut : ℕ
  ctransaction : ℕ
  ctxIn_fits : 0 < 5000000 / ctxIn
  ctxOut_fits : 0 < 5000000 / ctxOut
  ctransaction_fits : 0 < 5000000 / ctransaction

/-- The sizes with pointers of 64 bits. -/
instance : Inhabited ElementSizes := ⟨96, 40, 96, by decide, by decide, by decide⟩

/-- A number of some bytes after the first byte of `ReadCompactSize`, which must not have had
a shorter form. -/
def readWide (width least : ℕ) : Reader UInt8 ℕ := do
  let xSize ← number width
  if xSize < least then failure else pure xSize

/-- What follows the first byte in `ReadCompactSize`. -/
def readCompactForm (chSize : ℕ) : Reader UInt8 ℕ :=
  if chSize < 253 then pure chSize
  else if chSize = 253 then readWide 2 253
  else if chSize = 254 then readWide 4 0x10000
  else readWide 8 0x100000000

/-- `ReadCompactSize` before its limit. -/
def readAnySize : Reader UInt8 ℕ := do
  let chSize ← number 1
  readCompactForm chSize

def readCompactSize : Reader UInt8 ℕ := do
  let nSizeRet ← readAnySize
  if maxSize < nSizeRet then failure else pure nSizeRet

/-- `Unserialize` of a vector of elements of some size in memory. -/
def unserializeVector {α : Type} (read : Reader UInt8 α) (sizeof : ℕ)
    (fits : 0 < 5000000 / sizeof) : Reader UInt8 (List α) := do
  let nSize ← readCompactSize
  chunked (many read) (5000000 / sizeof) fits nSize

/-- `Unserialize` of a vector of bytes. -/
def unserializeBytes : Reader UInt8 (List UInt8) := do
  let nSize ← readCompactSize
  chunked take (1 + 4999999 / 1) (Nat.lt_add_right _ Nat.one_pos) nSize

/-- `Unserialize` of an unsigned number of 32 bits. -/
def UInt32.unserialize : Reader UInt8 UInt32 := UInt32.ofNat <$> number 4

/-- `Unserialize` of a signed number of 32 bits. -/
def Int32.unserialize : Reader UInt8 Int32 := UInt32.toInt32 <$> UInt32.unserialize

/-- `Unserialize` of an unsigned number of 64 bits. -/
def UInt64.unserialize : Reader UInt8 UInt64 := UInt64.ofNat <$> number 8

/-- `Unserialize` of a signed number of 64 bits. -/
def Int64.unserialize : Reader UInt8 Int64 := UInt64.toInt64 <$> UInt64.unserialize

/-- `Unserialize` of a signed number of 64 bits, as an integer. -/
def unserializeInt64 : Reader UInt8 Int :=
  (fun n : ℕ => (n : Int).bmod (2 ^ 64)) <$> number 8

def UInt256.unserialize : Reader UInt8 UInt256 := BitVec.ofNat 256 <$> number 32

/-- `COutPoint::SerializationOp`: the object as it is in memory. -/
def COutPoint.unserialize : Reader UInt8 COutPoint := do
  let hash ← UInt256.unserialize
  let n ← UInt32.unserialize
  pure ⟨hash, n⟩

/-- `CTxIn::SerializationOp` -/
def CTxIn.unserialize : Reader UInt8 CTxIn := do
  let prevout ← COutPoint.unserialize
  let scriptSig ← unserializeBytes
  let nSequence ← UInt32.unserialize
  pure ⟨prevout, scriptSig, nSequence⟩

/-- `CTxOut::SerializationOp` of an output with its initial value of `nRounds`. -/
def CTxOut.unserialize : Reader UInt8 CTxOut := do
  let nValue ← unserializeInt64
  let scriptPubKey ← unserializeBytes
  pure { CTxOut.null with nValue := nValue, scriptPubKey := scriptPubKey }

section Transaction

variable (serializeHash : List UInt8 → UInt256)

def CTransaction.updateHash (tx : CTransaction) : CTransaction :=
  { tx with hash := serializeHash tx.serialize }

/-- `CTransaction::SerializationOp`, which ends with `UpdateHash`. -/
def CTransaction.unserialize (sizes : ElementSizes) : Reader UInt8 CTransaction := do
  let nVersion ← Int32.unserialize
  let vin ← unserializeVector CTxIn.unserialize sizes.ctxIn sizes.ctxIn_fits
  let vout ← unserializeVector CTxOut.unserialize sizes.ctxOut sizes.ctxOut_fits
  let nLockTime ← UInt32.unserialize
  pure (CTransaction.updateHash serializeHash ⟨0, nVersion, vin, vout, nLockTime⟩)

end Transaction

/-! ## Counts -/

theorem codes_readWide (width least : ℕ) :
    Codes (readWide width least) (bytes width)
      (fun n => n < 256 ^ width ∧ ¬n < least) :=
  codes_refuse (codes_number width) (· < least)

theorem writeCompactSize_form {n : ℕ} :
    (n < 253 → writeCompactSize n = bytes 1 n) ∧
      (253 ≤ n → n < 256 ^ 2 → writeCompactSize n = bytes 1 253 ++ bytes 2 n) ∧
      (0x10000 ≤ n → n < 256 ^ 4 → writeCompactSize n = bytes 1 254 ++ bytes 4 n) ∧
      (0x100000000 ≤ n → writeCompactSize n = bytes 1 255 ++ bytes 8 n) := by
  unfold writeCompactSize
  refine ⟨fun direct => if_pos direct, fun least most => ?_, fun least most => ?_, fun least => ?_⟩
  · rw [if_neg (by omega), if_pos (by omega)]
    rfl
  · rw [if_neg (by omega), if_neg (by omega), if_pos (by omega)]
    rfl
  · rw [if_neg (by omega), if_neg (by omega), if_neg (by omega)]
    rfl

theorem codes_readAnySize : Codes readAnySize writeCompactSize (fun n => n < 256 ^ 8) := by
  intro s n rest
  obtain ⟨direct, two, four, eight⟩ := writeCompactSize_form (n := n)
  rw [readAnySize, (codes_number 1).bind_eq_some]
  constructor
  · intro found
    obtain ⟨chSize, mid, ⟨byte, rfl⟩, later⟩ := found
    rw [readCompactForm] at later
    split_ifs at later with small isTwo isFour
    · obtain ⟨rfl, rfl⟩ := pure_eq_some.mp later
      exact ⟨by omega, by rw [direct small]⟩
    · obtain ⟨⟨most, least⟩, rfl⟩ := (codes_readWide 2 253 _ _ _).mp later
      exact ⟨by omega, by rw [two (by omega) most, isTwo, append_assoc]⟩
    · obtain ⟨⟨most, least⟩, rfl⟩ := (codes_readWide 4 0x10000 _ _ _).mp later
      exact ⟨by omega, by rw [four (by omega) most, isFour, append_assoc]⟩
    · obtain ⟨⟨most, least⟩, rfl⟩ := (codes_readWide 8 0x100000000 _ _ _).mp later
      obtain rfl : chSize = 255 := by omega
      exact ⟨most, by rw [eight (by omega), append_assoc]⟩
  · intro found
    obtain ⟨fits, rfl⟩ := found
    by_cases small : n < 253
    · refine ⟨n, rest, ⟨by omega, by rw [direct small]⟩, ?_⟩
      rw [readCompactForm, if_pos small]
      rfl
    · by_cases short : n < 256 ^ 2
      · refine ⟨253, bytes 2 n ++ rest, ⟨by omega, ?_⟩, ?_⟩
        · rw [two (by omega) short, append_assoc]
        · exact (codes_readWide 2 253 _ _ _).mpr ⟨⟨short, small⟩, rfl⟩
      · by_cases medium : n < 256 ^ 4
        · refine ⟨254, bytes 4 n ++ rest, ⟨by omega, ?_⟩, ?_⟩
          · rw [four (by omega) medium, append_assoc]
          · exact (codes_readWide 4 0x10000 _ _ _).mpr ⟨⟨medium, by omega⟩, rfl⟩
        · refine ⟨255, bytes 8 n ++ rest, ⟨by omega, ?_⟩, ?_⟩
          · rw [eight (by omega), append_assoc]
          · exact (codes_readWide 8 0x100000000 _ _ _).mpr ⟨⟨fits, by omega⟩, rfl⟩

theorem codes_readCompactSize : Codes readCompactSize writeCompactSize (fun n => n ≤ maxSize) := by
  refine (codes_refuse codes_readAnySize (maxSize < ·)).congr ?_ fun _ _ => rfl
  intro n
  have limit : maxSize < 256 ^ 8 := by decide
  exact ⟨fun both => Nat.not_lt.mp both.2, fun fits => ⟨by omega, Nat.not_lt.mpr fits⟩⟩

/-- A longer form than necessary is refused. -/
example : readCompactSize [253, 252, 0] = none ∧ readCompactSize [252, 0] = some (252, [0]) :=
  ⟨rfl, rfl⟩

/-! ## Vectors -/

theorem codes_counted {α : Type} {read : ℕ → Reader UInt8 (List α)} {write : List α → List UInt8}
    {valid : List α → Prop}
    (codes : ∀ n, Codes (read n) write (fun v => v.length = n ∧ valid v)) :
    Codes (do let nSize ← readCompactSize; read nSize)
      (fun v => writeCompactSize v.length ++ write v) (fun v => v.length ≤ maxSize ∧ valid v) := by
  intro s v rest
  rw [codes_readCompactSize.bind_eq_some]
  constructor
  · intro found
    obtain ⟨nSize, mid, ⟨limited, rfl⟩, later⟩ := found
    obtain ⟨⟨rfl, ok⟩, rfl⟩ := (codes nSize _ _ _).mp later
    exact ⟨⟨limited, ok⟩, (append_assoc _ _ _).symm⟩
  · intro found
    obtain ⟨⟨limited, ok⟩, rfl⟩ := found
    exact ⟨v.length, write v ++ rest, ⟨limited, append_assoc _ _ _⟩,
      (codes _ _ _ _).mpr ⟨⟨rfl, ok⟩, rfl⟩⟩

theorem codes_unserializeVector {α : Type} {read : Reader UInt8 α} {write : α → List UInt8}
    {valid : α → Prop} (codes : Codes read write valid) (sizeof : ℕ)
    (fits : 0 < 5000000 / sizeof) :
    Codes (unserializeVector read sizeof fits) (serializeVector write)
      (fun v => v.length ≤ maxSize ∧ ∀ a ∈ v, valid a) :=
  codes_counted fun n => Reader.codes_chunked rfl (fun _ _ => List.flatMap_append)
    (fun size => Reader.codes_many codes size) _ fits n

theorem parses_readCompactSize {n : ℕ} (fits : n < 256 ^ 8) :
    Parses readCompactSize (writeCompactSize n) (if n ≤ maxSize then some n else none) := by
  rw [← List.append_nil (writeCompactSize n)]
  refine (codes_readAnySize.parses fits).bind ?_
  split_ifs with exceeds within within
  · omega
  · exact fun _ => rfl
  · exact Parses.pure n
  · omega

theorem parses_unserializeVector {α : Type} {read : Reader UInt8 α} {write : α → List UInt8}
    (each : ∀ a, Parses read (write a) (some a)) (sizeof : ℕ) (fits : 0 < 5000000 / sizeof)
    {v : List α} (size : v.length < 256 ^ 8) :
    Parses (unserializeVector read sizeof fits) (serializeVector write v)
      (if v.length ≤ maxSize then some v else none) := by
  have count := parses_readCompactSize size
  split_ifs at count ⊢ with within
  · exact count.bind (Parses.chunked rfl (fun _ _ => List.flatMap_append)
      (Parses.many each) fits v)
  · exact count.bind_none _

theorem codes_unserializeBytes :
    Codes unserializeBytes serializeBytes (fun v => v.length ≤ maxSize) := by
  have chunks : ∀ n, Codes (chunked take (1 + 4999999 / 1)
      (Nat.lt_add_right _ Nat.one_pos) n) (fun v : List UInt8 => v)
      (fun v => v.length = n ∧ ∀ byte ∈ v, True) := by
    intro n
    refine Reader.codes_chunked rfl (fun _ _ => rfl) (fun size => ?_) _ _ n
    exact (Reader.codes_take size).congr (fun v => (and_iff_left fun _ _ => trivial).symm)
      fun _ _ => rfl
  exact (codes_counted chunks).congr (fun v => and_iff_left fun _ _ => trivial) fun _ _ => rfl

/-! ## Numbers -/

theorem UInt32.codes : Codes UInt32.unserialize
    (fun n => bytes 4 n.toNat) (fun _ => True) := by
  refine (codes_number 4).map (fun n fits => ⟨trivial, ?_⟩) fun n _ => ⟨n.toNat_lt, ?_⟩
  · exact Nat.mod_eq_of_lt fits
  · exact UInt32.ofNat_toNat

theorem Int32.codes : Codes Int32.unserialize
    (fun n => bytes 4 n.toUInt32.toNat) (fun _ => True) :=
  UInt32.codes.map (fun n _ => ⟨trivial, UInt32.toUInt32_toInt32 n⟩)
    fun n _ => ⟨trivial, Int32.toInt32_toUInt32 n⟩

theorem UInt64.codes : Codes UInt64.unserialize
    (fun n => bytes 8 n.toNat) (fun _ => True) := by
  refine (codes_number 8).map (fun n fits => ⟨trivial, ?_⟩) fun n _ => ⟨n.toNat_lt, ?_⟩
  · exact Nat.mod_eq_of_lt fits
  · exact UInt64.ofNat_toNat

theorem Int64.codes : Codes Int64.unserialize
    (fun n => bytes 8 n.toUInt64.toNat) (fun _ => True) :=
  UInt64.codes.map (fun n _ => ⟨trivial, UInt64.toUInt64_toInt64 n⟩)
    fun n _ => ⟨trivial, Int64.toInt64_toUInt64 n⟩

theorem codes_bmod {width modulus : ℕ} (whole : modulus = 256 ^ width) :
    Codes ((fun n : ℕ => (n : Int).bmod modulus) <$> number width)
      (fun n => bytes width (n % modulus).toNat)
      (fun n => -(modulus : Int) ≤ 2 * n ∧ 2 * n < modulus) := by
  have positive : 0 < modulus := whole ▸ Nat.pow_pos (by decide)
  refine (codes_number width).map (fun n fits => ⟨⟨?_, ?_⟩, ?_⟩) fun n inside => ⟨?_, ?_⟩
  · have low := Int.le_bmod (x := n) positive
    omega
  · have high := Int.bmod_lt (x := n) positive
    omega
  · rw [Int.bmod_emod, Int.emod_eq_of_lt (by omega) (by omega), Int.toNat_natCast]
  · have high := Int.emod_lt_of_pos n (by omega : 0 < (modulus : Int))
    omega
  · rw [Int.toNat_of_nonneg (Int.emod_nonneg n (by omega)), Int.emod_bmod]
    exact Int.bmod_eq_of_le (by omega) (by omega)

theorem codes_unserializeInt64 : Codes unserializeInt64
    (fun n => bytes 8 (n % 2 ^ 64).toNat) (fun n => -2 ^ 63 ≤ n ∧ n < 2 ^ 63) :=
  (codes_bmod (by decide)).congr (fun n => by omega) fun n _ => rfl

theorem UInt256.codes : Codes UInt256.unserialize UInt256.serialize (fun _ => True) := by
  refine (codes_number 32).map (fun n fits => ⟨trivial, ?_⟩)
    fun n _ => ⟨BitVec.isLt n, (BitVec.ofNat_toNat 256 n).trans (BitVec.setWidth_eq n)⟩
  exact Nat.mod_eq_of_lt fits

/-! ## Transactions -/

theorem COutPoint.codes : Codes COutPoint.unserialize COutPoint.serialize (fun _ => True) := by
  intro s out rest
  simp only [COutPoint.unserialize, UInt256.codes.bind_eq_some, UInt32.codes.bind_eq_some,
    pure_eq_some]
  constructor
  · intro found
    obtain ⟨hash, _, ⟨-, rfl⟩, n, _, ⟨-, rfl⟩, rfl, rfl⟩ := found
    exact ⟨trivial, (append_assoc _ _ _).symm⟩
  · intro found
    obtain ⟨-, rfl⟩ := found
    exact ⟨out.hash, _, ⟨trivial, append_assoc _ _ _⟩, out.n, rest, ⟨trivial, rfl⟩, rfl, rfl⟩

def CTxIn.Sized (txin : CTxIn) : Prop := txin.scriptSig.length ≤ maxSize

theorem CTxIn.codes : Codes CTxIn.unserialize CTxIn.serialize CTxIn.Sized := by
  intro s txin rest
  simp only [CTxIn.unserialize, COutPoint.codes.bind_eq_some,
    codes_unserializeBytes.bind_eq_some, UInt32.codes.bind_eq_some, pure_eq_some]
  constructor
  · intro found
    obtain ⟨prevout, _, ⟨-, rfl⟩, scriptSig, _, ⟨limited, rfl⟩, nSequence, _, ⟨-, rfl⟩, rfl, rfl⟩ :=
      found
    exact ⟨limited, by simp [CTxIn.serialize]⟩
  · intro found
    obtain ⟨limited, rfl⟩ := found
    refine ⟨txin.prevout, _, ⟨trivial, ?_⟩, txin.scriptSig, _, ⟨limited, rfl⟩, txin.nSequence, rest,
      ⟨trivial, rfl⟩, rfl, rfl⟩
    simp [CTxIn.serialize]

/-- The value of an output is one of 64 bits, and its script is within the limit. -/
structure CTxOut.Sized (txout : CTxOut) : Prop where
  least : -2 ^ 63 ≤ txout.nValue
  most : txout.nValue < 2 ^ 63
  script : txout.scriptPubKey.length ≤ maxSize

def CTxOut.reset (txout : CTxOut) : CTxOut := { txout with nRounds := CTxOut.null.nRounds }

theorem CTxOut.codes : Codes CTxOut.unserialize CTxOut.serialize
    (fun txout => txout.Sized ∧ txout.reset = txout) := by
  intro s txout rest
  simp only [CTxOut.unserialize, codes_unserializeInt64.bind_eq_some,
    codes_unserializeBytes.bind_eq_some, pure_eq_some]
  constructor
  · intro found
    obtain ⟨nValue, _, ⟨range, rfl⟩, scriptPubKey, _, ⟨limited, rfl⟩, rfl, rfl⟩ := found
    exact ⟨⟨⟨range.1, range.2, limited⟩, rfl⟩, by simp [CTxOut.serialize]⟩
  · intro found
    obtain ⟨⟨sized, initial⟩, rfl⟩ := found
    refine ⟨txout.nValue, _, ⟨⟨sized.least, sized.most⟩, ?_⟩, txout.scriptPubKey, rest,
      ⟨sized.script, rfl⟩, initial, rfl⟩
    simp [CTxOut.serialize]

/-- Every vector of a transaction is within the limit, and the values are those of 64 bits. -/
structure CTransaction.Sized (tx : CTransaction) : Prop where
  vin : tx.vin.length ≤ maxSize
  vout : tx.vout.length ≤ maxSize
  inputs : ∀ txin ∈ tx.vin, txin.Sized
  outputs : ∀ txout ∈ tx.vout, txout.Sized

section Transaction

variable (serializeHash : List UInt8 → UInt256) (sizes : ElementSizes)

/-- The transaction as it is read again: what is only in memory has its initial value, or is
computed from the rest. -/
def CTransaction.reread (tx : CTransaction) : CTransaction :=
  CTransaction.updateHash serializeHash { tx with vout := tx.vout.map CTxOut.reset }

theorem CTransaction.serialize_reread (tx : CTransaction) :
    (tx.reread serializeHash).serialize = tx.serialize := by
  have outputs : serializeVector CTxOut.serialize (tx.vout.map CTxOut.reset) =
      serializeVector CTxOut.serialize tx.vout := by
    rw [serializeVector, serializeVector, List.length_map, List.flatMap_map]
    rfl
  change _ ++ (_ ++ (serializeVector CTxOut.serialize (tx.vout.map CTxOut.reset) ++ _)) = _
  rw [outputs]
  rfl

theorem CTransaction.codes : Codes (CTransaction.unserialize serializeHash sizes)
    CTransaction.serialize (fun tx => tx.Sized ∧ tx.reread serializeHash = tx) := by
  intro s tx rest
  simp only [CTransaction.unserialize, Int32.codes.bind_eq_some, UInt32.codes.bind_eq_some,
    (codes_unserializeVector CTxIn.codes _ _).bind_eq_some,
    (codes_unserializeVector CTxOut.codes _ _).bind_eq_some, pure_eq_some]
  constructor
  · intro found
    obtain ⟨nVersion, _, ⟨-, rfl⟩, vin, _, ⟨inputs, rfl⟩, vout, _, ⟨outputs, rfl⟩, nLockTime, _,
      ⟨-, rfl⟩, rfl, rfl⟩ := found
    have reset : vout.map CTxOut.reset = vout :=
      map_eq_self.mpr fun out mem => (outputs.2 out mem).2
    refine ⟨⟨⟨inputs.1, outputs.1, inputs.2, fun out mem => (outputs.2 out mem).1⟩, ?_⟩, ?_⟩
    · simp only [CTransaction.reread, CTransaction.updateHash, reset]
      rfl
    · simp [CTransaction.updateHash, CTransaction.serialize]
  · intro found
    obtain ⟨⟨sized, same⟩, rfl⟩ := found
    have outputs : tx.vout.map CTxOut.reset = tx.vout := congrArg CTransaction.vout same
    refine ⟨tx.nVersion, _, ⟨trivial, ?_⟩, tx.vin, _, ⟨⟨sized.vin, sized.inputs⟩, rfl⟩, tx.vout, _,
      ⟨⟨sized.vout, ?_⟩, rfl⟩, tx.nLockTime, rest, ⟨trivial, rfl⟩, ?_, rfl⟩
    · simp [CTransaction.serialize]
    · exact fun out mem => ⟨sized.outputs out mem, map_eq_self.mp outputs out mem⟩
    · refine Eq.trans ?_ same
      rw [CTransaction.reread, outputs]
      rfl

theorem CTransaction.isCoinStake_reread (tx : CTransaction) :
    (tx.reread serializeHash).isCoinStake = tx.isCoinStake := by
  rcases tx with ⟨-, -, _ | ⟨-, -⟩, vout, -⟩
  · rfl
  · rcases vout with _ | ⟨-, _ | ⟨-, -⟩⟩
    · rfl
    · rfl
    · rfl

theorem CTxOut.reset_eq_self {txout : CTxOut} : txout.reset = txout ↔ txout.nRounds = -10 := by
  constructor
  · intro same
    exact (congrArg CTxOut.nRounds same).symm
  · intro initial
    exact congrArg (CTxOut.mk txout.nValue txout.scriptPubKey) initial.symm

variable {serializeHash} in
theorem CTransaction.reread_eq_self {tx : CTransaction} :
    tx.reread serializeHash = tx ↔
      tx.hash = serializeHash tx.serialize ∧ ∀ txout ∈ tx.vout, txout.nRounds = -10 := by
  have outputs : tx.vout.map CTxOut.reset = tx.vout ↔ ∀ txout ∈ tx.vout, txout.nRounds = -10 :=
    map_eq_self.trans (forall₂_congr fun txout _ => CTxOut.reset_eq_self)
  have fields : tx.reread serializeHash = { tx with
      hash := serializeHash tx.serialize, vout := tx.vout.map CTxOut.reset } := by
    rw [← CTransaction.serialize_reread serializeHash tx]
    rfl
  rw [fields, ← outputs]
  constructor
  · intro same
    exact ⟨(congrArg CTransaction.hash same).symm, congrArg CTransaction.vout same⟩
  · intro initial
    rw [← initial.1, initial.2]

variable {serializeHash} in
theorem CTransaction.reread_reread (tx : CTransaction) :
    (tx.reread serializeHash).reread serializeHash = tx.reread serializeHash := by
  have outputs : (tx.vout.map CTxOut.reset).map CTxOut.reset = tx.vout.map CTxOut.reset := by
    rw [List.map_map]
    rfl
  change CTransaction.updateHash serializeHash
    { tx.reread serializeHash with vout := (tx.vout.map CTxOut.reset).map CTxOut.reset } = _
  rw [outputs]
  rfl

variable {serializeHash} in
theorem CTransaction.Sized.reread {tx : CTransaction} (sized : tx.Sized) :
    (tx.reread serializeHash).Sized where
  vin := sized.vin
  vout := by
    change (tx.vout.map CTxOut.reset).length ≤ maxSize
    rw [List.length_map]
    exact sized.vout
  inputs := sized.inputs
  outputs := by
    intro txout mem
    obtain ⟨out, inside, rfl⟩ := List.mem_map.mp (mem : txout ∈ tx.vout.map CTxOut.reset)
    exact ⟨(sized.outputs out inside).least, (sized.outputs out inside).most,
      (sized.outputs out inside).script⟩

/-- **Transactions are read back.** What is written is read as the same transaction, up to what
is only in memory. -/
theorem CTransaction.unserialize_serialize {tx : CTransaction} (sized : tx.Sized)
    (suffix : List UInt8) :
    CTransaction.unserialize serializeHash sizes (tx.serialize ++ suffix) =
      some (tx.reread serializeHash, suffix) := by
  rw [← CTransaction.serialize_reread serializeHash]
  exact (CTransaction.codes serializeHash sizes).roundTrip ⟨sized.reread, tx.reread_reread⟩ suffix

end Transaction

end DogeCash
