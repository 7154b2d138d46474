import DogeCash.Chain.Params
import DogeCash.Coins.Coins
import DogeCash.Primitives.VarInt
import DogeCash.Script.Solver

/-! # The compact encoding of an output

`CTxOutCompressor` writes the value and the script of an unspent output for the database. A
value loses its decimal zeros; a script of one of six common forms becomes a form number and
a hash or key, any other its length plus six and its bytes. Reading a script longer than
`MAX_SCRIPT_SIZE` skips it and leaves `OP_RETURN`. The lengths are natural numbers: the code
keeps them in 32 bits, which no script of a transaction exceeds.
-/

namespace DogeCash

open Op
open ChainParams (moneyRange ofNetwork)

/-- `MAX_SCRIPT_SIZE` -/
def maxScriptSize : ℕ := 10000

/-! ## Amounts -/

/-- The values of a `uint64_t`. -/
def uint64Size : ℕ := 18446744073709551616

/-- The conversion of a `CAmount` to `uint64_t`. -/
def toUInt64 (nValue : Int) : ℕ := (nValue % uint64Size).toNat

/-- The conversion of a `uint64_t` to `CAmount`. -/
def toCAmount (n : ℕ) : Int :=
  if n % uint64Size < 9223372036854775808 then n % uint64Size else n % uint64Size - uint64Size

/-- The first loop of `CompressAmount`: drop zeros, at most so many, and count them. -/
def dropZeros : ℕ → ℕ → ℕ × ℕ
  | 0, n => (n, 0)
  | room + 1, n =>
    if n % 10 = 0 then
      let (n, e) := dropZeros room (n / 10)
      (n, e + 1)
    else (n, 0)

/-- The loop of `DecompressAmount`: put `e` zeros back. -/
def addZeros (n : ℕ) : ℕ → ℕ
  | 0 => n
  | e + 1 => addZeros (n * 10) e

def compressAmount (n : ℕ) : ℕ :=
  if n = 0 then 0
  else
    let (n, e) := dropZeros 9 n
    if e < 9 then (1 + (n / 10 * 9 + n % 10 - 1) * 10 + e) % uint64Size
    else (1 + (n - 1) * 10 + 9) % uint64Size

def decompressAmount (x : ℕ) : ℕ :=
  if x = 0 then 0
  else
    let e := (x - 1) % 10
    let x := (x - 1) / 10
    let n := if e < 9 then x / 9 * 10 + (x % 9 + 1) else x + 1
    addZeros n e % uint64Size

/-! ## Scripts -/

/-- What the compressor takes from `CPubKey`; the keys are serialized. -/
structure PubKeyOps where
  isFullyValid : Valtype → Bool
  /-- `CPubKey::Decompress`, the key afterwards; `none` where it returns false. -/
  decompress : Valtype → Option Valtype

/-- Decompression inverts compression for the fully valid keys of 65 bytes: the compressed key
has the first coordinate, and the parity of the second in its first byte. -/
def PubKeyOps.Inverts (keys : PubKeyOps) : Prop :=
  ∀ pubkey : Valtype, pubkey.length = 65 → pubkey.head? = some 0x04 →
    keys.isFullyValid pubkey = true →
    keys.decompress ((0x02 ||| (pubkey.getD 64 0 &&& 0x01)) :: pubkey.tail.take 32) = some pubkey

namespace CScriptCompressor

variable (keys : PubKeyOps)

def nSpecialScripts : ℕ := 6

def isToKeyID (script : CScript) : Option Valtype :=
  if script.length = 25 ∧ script[0]? = some OP_DUP ∧ script[1]? = some OP_HASH160 ∧
      script[2]? = some 20 ∧ script[23]? = some OP_EQUALVERIFY ∧ script[24]? = some OP_CHECKSIG then
    some ((script.drop 3).take 20)
  else none

def isToScriptID (script : CScript) : Option Valtype :=
  if script.length = 23 ∧ script[0]? = some OP_HASH160 ∧ script[1]? = some 20 ∧
      script[22]? = some OP_EQUAL then
    some ((script.drop 2).take 20)
  else none

/-- `CScriptCompressor::IsToPubKey`. `CPubKey::Set` keeps the bytes, whose number fits the
first of them. -/
def isToPubKey (script : CScript) : Option Valtype :=
  if script.length = 35 ∧ script[0]? = some 33 ∧ script[34]? = some OP_CHECKSIG ∧
      (script[1]? = some 0x02 ∨ script[1]? = some 0x03) then
    some ((script.drop 1).take 33)
  else if script.length = 67 ∧ script[0]? = some 65 ∧ script[66]? = some OP_CHECKSIG ∧
      script[1]? = some 0x04 then
    if keys.isFullyValid ((script.drop 1).take 65) then some ((script.drop 1).take 65) else none
  else none

/-- `CScriptCompressor::Compress`; `none` where it returns false. -/
def compress (script : CScript) : Option (List UInt8) :=
  match isToKeyID script with
  | some keyID => some (0x00 :: keyID)
  | none =>
    match isToScriptID script with
    | some scriptID => some (0x01 :: scriptID)
    | none =>
      match isToPubKey keys script with
      | some (header :: others) =>
        if header = 0x02 ∨ header = 0x03 then some (header :: others.take 32)
        else if header = 0x04 then
          some ((0x04 ||| (others.getD 63 0 &&& 0x01)) :: others.take 32)
        else none
      | _ => none

def getSpecialSize (nSize : ℕ) : ℕ :=
  if nSize = 0 ∨ nSize = 1 then 20
  else if nSize = 2 ∨ nSize = 3 ∨ nSize = 4 ∨ nSize = 5 then 32
  else 0

/-- `CScriptCompressor::Decompress`, the script afterwards; `none` where it returns false. -/
def decompress (nSize : ℕ) (vch : List UInt8) : Option CScript :=
  match nSize with
  | 0x00 => some ([OP_DUP, OP_HASH160, 20] ++ vch.take 20 ++ [OP_EQUALVERIFY, OP_CHECKSIG])
  | 0x01 => some ([OP_HASH160, 20] ++ vch.take 20 ++ [OP_EQUAL])
  | 0x02 => some ([33, 0x02] ++ vch.take 32 ++ [OP_CHECKSIG])
  | 0x03 => some ([33, 0x03] ++ vch.take 32 ++ [OP_CHECKSIG])
  | 0x04 => (keys.decompress (0x02 :: vch.take 32)).map fun pubkey =>
    [65] ++ pubkey ++ [OP_CHECKSIG]
  | 0x05 => (keys.decompress (0x03 :: vch.take 32)).map fun pubkey =>
    [65] ++ pubkey ++ [OP_CHECKSIG]
  | _ => none

def serialize (script : CScript) : List UInt8 :=
  match compress keys script with
  | some compr => compr
  | none => writeVarInt (script.length + nSpecialScripts : ℕ) ++ script

/-- `CScriptCompressor::Unserialize` into a script; `none` where the stream ends too early. -/
def unserialize (script : CScript) (s : List UInt8) : Option (CScript × List UInt8) :=
  match readVarInt s with
  | none => none
  | some (nSize, s) =>
    if nSize < nSpecialScripts then
      (CScript.takeData (getSpecialSize nSize) s).map fun (vch, s) =>
        ((decompress keys nSize vch).getD script, s)
    else if maxScriptSize < nSize - nSpecialScripts then
      (CScript.takeData (nSize - nSpecialScripts) s).map fun (_, s) => (script ++ [OP_RETURN], s)
    else CScript.takeData (nSize - nSpecialScripts) s

end CScriptCompressor

namespace CTxOutCompressor

variable (keys : PubKeyOps)

def serialize (txout : CTxOut) : List UInt8 :=
  writeVarInt (compressAmount (toUInt64 txout.nValue)) ++
    CScriptCompressor.serialize keys txout.scriptPubKey

/-- `CTxOutCompressor::Unserialize` into an output. -/
def unserialize (txout : CTxOut) (s : List UInt8) : Option (CTxOut × List UInt8) :=
  match readVarInt s with
  | none => none
  | some (nVal, s) =>
    (CScriptCompressor.unserialize keys txout.scriptPubKey s).map fun (script, s) =>
      ({ txout with
          nValue := toCAmount (decompressAmount (nVal % uint64Size))
          scriptPubKey := script }, s)

end CTxOutCompressor

/-! ## Amounts survive -/

private theorem addZeros_mul (n e : ℕ) : addZeros (n * 10) e = addZeros n e * 10 := by
  induction e generalizing n with
  | zero => rfl
  | succ e ih => exact ih (n * 10)

theorem dropZeros_spec {room n m e : ℕ} (dropped : dropZeros room n = (m, e)) :
    addZeros m e = n ∧ m ≤ n ∧ e ≤ room ∧ (e < room → m % 10 ≠ 0) ∧ (0 < n → 0 < m) := by
  induction room generalizing n m e with
  | zero =>
    cases dropped
    exact ⟨rfl, Nat.le_refl _, Nat.le_refl _, fun less => absurd less (Nat.lt_irrefl 0), id⟩
  | succ room ih =>
    rw [dropZeros] at dropped
    split at dropped
    · rename_i zero
      cases inner : dropZeros room (n / 10) with
      | mk m' e' =>
        rw [inner] at dropped
        cases dropped
        obtain ⟨value, small, room', last, positive⟩ := ih inner
        refine ⟨?_, by omega, by omega, fun less => last (by omega), fun nonzero =>
          positive (by omega)⟩
        rw [addZeros, addZeros_mul, value]
        omega
    · rename_i last
      cases dropped
      exact ⟨rfl, Nat.le_refl _, Nat.zero_le _, fun _ => last, id⟩

/-- **Amounts round-trip** while ten times the amount fits the type. -/
theorem decompressAmount_compressAmount {n : ℕ} (small : n * 10 + 10 < uint64Size) :
    decompressAmount (compressAmount n) = n := by
  by_cases zero : n = 0
  · subst zero
    rfl
  cases dropped : dropZeros 9 n with
  | mk m e =>
    obtain ⟨value, below, room, last, positive⟩ := dropZeros_spec dropped
    rw [compressAmount, if_neg zero, dropped]
    dsimp only
    by_cases digits : e < 9
    · rw [if_pos digits, Nat.mod_eq_of_lt (by omega), decompressAmount, if_neg (by omega)]
      have e' : (1 + (m / 10 * 9 + m % 10 - 1) * 10 + e - 1) % 10 = e := by omega
      have x : (1 + (m / 10 * 9 + m % 10 - 1) * 10 + e - 1) / 10 =
          m / 10 * 9 + (m % 10 - 1) := by omega
      have m' : (m / 10 * 9 + (m % 10 - 1)) / 9 * 10 +
          ((m / 10 * 9 + (m % 10 - 1)) % 9 + 1) = m := by omega
      simp only [e', x, if_pos digits, m', value]
      exact Nat.mod_eq_of_lt (by omega)
    · rw [if_neg digits, Nat.mod_eq_of_lt (by omega), decompressAmount, if_neg (by omega)]
      have e' : (1 + (m - 1) * 10 + 9 - 1) % 10 = e := by omega
      have m' : (1 + (m - 1) * 10 + 9 - 1) / 10 + 1 = m := by omega
      simp only [e', if_neg digits, m', value]
      exact Nat.mod_eq_of_lt (by omega)

/-- What `DecompressAmount` stands for, without the reduction to 64 bits. -/
def exactAmount (x : ℕ) : ℕ :=
  if x = 0 then 0
  else
    let e := (x - 1) % 10
    let x := (x - 1) / 10
    addZeros (if e < 9 then x / 9 * 10 + (x % 9 + 1) else x + 1) e

theorem decompressAmount_eq (x : ℕ) : decompressAmount x = exactAmount x % uint64Size := by
  unfold decompressAmount exactAmount
  split_ifs <;> rfl

theorem dropZeros_addZeros {room m e : ℕ} (fits : e ≤ room) (last : e < room → m % 10 ≠ 0) :
    dropZeros room (addZeros m e) = (m, e) := by
  induction e generalizing room with
  | zero =>
    cases room with
    | zero => rfl
    | succ room => rw [addZeros, dropZeros, if_neg (last (Nat.succ_pos room))]
  | succ e ih =>
    obtain ⟨room, rfl⟩ := Nat.exists_eq_add_of_lt (Nat.lt_of_lt_of_le (Nat.succ_pos e) fits)
    rw [addZeros, addZeros_mul, dropZeros, if_pos (Nat.mul_mod_left _ _),
      Nat.mul_div_cancel _ (by decide), ih (by omega) fun less => last (by omega)]

/-- **Every code of a small amount is the one that it gets.** -/
theorem compressAmount_exactAmount {x : ℕ} (word : x < uint64Size) :
    compressAmount (exactAmount x) = x := by
  by_cases zero : x = 0
  · subst zero
    rfl
  · have grows (n e : ℕ) (positive : 0 < n) : 0 < addZeros n e := by
      induction e generalizing n with
      | zero => exact positive
      | succ e ih => exact ih _ (by omega)
    simp only [exactAmount, if_neg zero]
    by_cases digits : (x - 1) % 10 < 9
    · rw [if_pos digits, compressAmount, if_neg (Nat.ne_of_gt (grows _ _ (by omega))),
        dropZeros_addZeros (Nat.le_of_lt digits) fun _ => by omega]
      dsimp only
      rw [if_pos digits]
      exact (Nat.mod_eq_of_lt (by omega)).trans (by omega)
    · rw [if_neg digits, compressAmount, if_neg (Nat.ne_of_gt (grows _ _ (by omega))),
        dropZeros_addZeros (by omega) fun less => absurd less digits]
      dsimp only
      rw [if_neg digits]
      exact (Nat.mod_eq_of_lt (by omega)).trans (by omega)

/-! ## Scripts survive -/

namespace CScriptCompressor

variable {keys : PubKeyOps}

private theorem drop_eq_take_append (script : CScript) (start size : ℕ) :
    script.drop start = (script.drop start).take size ++ script.drop (start + size) := by
  rw [← List.drop_drop, List.take_append_drop]

variable {script : CScript} {compr : List UInt8}

theorem isToKeyID_eq_some {keyID : Valtype} (found : isToKeyID script = some keyID) :
    keyID.length = 20 ∧
      script = [OP_DUP, OP_HASH160, 20] ++ keyID ++ [OP_EQUALVERIFY, OP_CHECKSIG] := by
  unfold isToKeyID at found
  split at found
  · rename_i form
    obtain ⟨length, dup, hash160, size, equal, sig⟩ := form
    cases found
    refine ⟨by simp [length], ?_⟩
    have ending : script.drop 23 = [OP_EQUALVERIFY, OP_CHECKSIG] := by
      rw [CScript.drop_of_getElem? equal, CScript.drop_of_getElem? sig,
        List.drop_eq_nil_of_le (Nat.le_of_eq length)]
    calc script = script.drop 0 := rfl
      _ = OP_DUP :: OP_HASH160 :: 20 :: ((script.drop 3).take 20 ++ script.drop 23) := by
        rw [CScript.drop_of_getElem? dup, CScript.drop_of_getElem? hash160,
          CScript.drop_of_getElem? size, ← drop_eq_take_append script 3 20]
      _ = _ := by rw [ending]; rfl
  · cases found

theorem isToScriptID_eq_some {scriptID : Valtype} (found : isToScriptID script = some scriptID) :
    scriptID.length = 20 ∧ script = [OP_HASH160, 20] ++ scriptID ++ [OP_EQUAL] := by
  unfold isToScriptID at found
  split at found
  · rename_i form
    obtain ⟨length, hash160, size, equal⟩ := form
    cases found
    refine ⟨by simp [length], ?_⟩
    have ending : script.drop 22 = [OP_EQUAL] := by
      rw [CScript.drop_of_getElem? equal, List.drop_eq_nil_of_le (Nat.le_of_eq length)]
    calc script = script.drop 0 := rfl
      _ = OP_HASH160 :: 20 :: ((script.drop 2).take 20 ++ script.drop 22) := by
        rw [CScript.drop_of_getElem? hash160, CScript.drop_of_getElem? size,
          ← drop_eq_take_append script 2 20]
      _ = _ := by rw [ending]; rfl
  · cases found

private theorem push_eq {size : UInt8} {n : ℕ} (length : script.length = n + 2)
    (first : script[0]? = some size) (sig : script[n + 1]? = some OP_CHECKSIG) :
    ((script.drop 1).take n).length = n ∧
      script = size :: ((script.drop 1).take n ++ [OP_CHECKSIG]) := by
  refine ⟨by simp [length], ?_⟩
  have ending : script.drop (1 + n) = [OP_CHECKSIG] := by
    rw [Nat.add_comm, CScript.drop_of_getElem? sig, List.drop_eq_nil_of_le (Nat.le_of_eq length)]
  calc script = script.drop 0 := rfl
    _ = size :: ((script.drop 1).take n ++ script.drop (1 + n)) := by
      rw [CScript.drop_of_getElem? first, ← drop_eq_take_append script 1 n]
    _ = _ := by rw [ending]

private theorem low_bit (byte : UInt8) : byte &&& 0x01 = 0 ∨ byte &&& 0x01 = 1 := by
  have value : (byte &&& 0x01).toNat = byte.toNat % 2 := by
    exact Nat.and_one_is_mod _
  rcases Nat.mod_two_eq_zero_or_one byte.toNat with even | odd
  · exact .inl (UInt8.toNat_inj.mp (value.trans even))
  · exact .inr (UInt8.toNat_inj.mp (value.trans odd))

theorem isToPubKey_eq_some {pubkey : Valtype} (found : isToPubKey keys script = some pubkey) :
    (pubkey.length = 33 ∧ (pubkey.head? = some 0x02 ∨ pubkey.head? = some 0x03) ∧
        script = 33 :: (pubkey ++ [OP_CHECKSIG])) ∨
      (pubkey.length = 65 ∧ pubkey.head? = some 0x04 ∧ keys.isFullyValid pubkey = true ∧
        script = 65 :: (pubkey ++ [OP_CHECKSIG])) := by
  have head (n : ℕ) : ((script.drop 1).take (n + 1)).head? = script[1]? := by
    rw [List.head?_eq_getElem?, List.getElem?_take_of_lt (Nat.succ_pos n), List.getElem?_drop]
  unfold isToPubKey at found
  split at found
  · rename_i form
    obtain ⟨length, size, sig, header⟩ := form
    cases found
    obtain ⟨keyLength, same⟩ := push_eq length size sig
    exact .inl ⟨keyLength, by rwa [head], same⟩
  · split at found
    · rename_i form
      obtain ⟨length, size, sig, header⟩ := form
      split at found
      · rename_i valid
        cases found
        obtain ⟨keyLength, same⟩ := push_eq length size sig
        exact .inr ⟨keyLength, by rwa [head], valid, same⟩
      · cases found
    · cases found

private theorem length_coordinate {header : UInt8} {others : Valtype}
    (long : 33 ≤ (header :: others).length) : (others.take 32).length = 32 := by
  rw [List.length_cons] at long
  rw [List.length_take]
  omega

/-- **The forms are inverted.** What `Compress` gives is a form number and as many bytes as that
form has, from which `Decompress` builds the script again. -/
theorem decompress_of_compress (inverts : keys.Inverts)
    (compressed : compress keys script = some compr) :
    ∃ form vch, compr = UInt8.ofNat form :: vch ∧ form < nSpecialScripts ∧
      vch.length = getSpecialSize form ∧ decompress keys form vch = some script := by
  unfold compress at compressed
  split at compressed
  · rename_i keyID found
    cases compressed
    obtain ⟨length, same⟩ := isToKeyID_eq_some found
    refine ⟨0, keyID, rfl, by decide, length, ?_⟩
    rw [decompress, List.take_of_length_le (Nat.le_of_eq length), ← same]
  · split at compressed
    · rename_i scriptID found
      cases compressed
      obtain ⟨length, same⟩ := isToScriptID_eq_some found
      refine ⟨1, scriptID, rfl, by decide, length, ?_⟩
      rw [decompress, List.take_of_length_le (Nat.le_of_eq length), ← same]
    · split at compressed
      · rename_i header others found
        rcases isToPubKey_eq_some found with ⟨length, head, same⟩ | ⟨length, head, valid, same⟩
        · have whole : (others.take 32).take 32 = others := by
            rw [List.take_take, List.take_of_length_le]
            simp only [List.length_cons] at length
            omega
          have size := length_coordinate length.ge
          simp only [List.head?_cons, Option.some.injEq] at head
          rw [if_pos head] at compressed
          cases compressed
          rcases head with rfl | rfl
          · refine ⟨2, others.take 32, rfl, by decide, size, ?_⟩
            rw [decompress, whole, same]
            rfl
          · refine ⟨3, others.take 32, rfl, by decide, size, ?_⟩
            rw [decompress, whole, same]
            rfl
        · cases head
          have restored := inverts _ length rfl valid
          change keys.decompress ((0x02 ||| (others.getD 63 0 &&& 0x01)) :: others.take 32) = _
            at restored
          have size := length_coordinate (by rw [length]; decide)
          have whole : (others.take 32).take 32 = others.take 32 := by
            rw [List.take_take, Nat.min_self]
          cases compressed
          rcases low_bit (others.getD 63 0) with even | odd
          · rw [even] at restored ⊢
            refine ⟨4, others.take 32, rfl, by decide, size, ?_⟩
            rw [decompress, whole, show (2 : UInt8) = 2 ||| 0 from rfl, restored, same]
            rfl
          · rw [odd] at restored ⊢
            refine ⟨5, others.take 32, rfl, by decide, size, ?_⟩
            rw [decompress, whole, show (3 : UInt8) = 2 ||| 1 from rfl, restored, same]
            rfl
      · cases compressed

private theorem readVarInt_form {form : ℕ} (special : form < nSpecialScripts) (s : List UInt8) :
    readVarInt (UInt8.ofNat form :: s) = some (form, s) := by
  have small : form < 6 := special
  have value : (UInt8.ofNat form).toNat = form := by
    rw [UInt8.toNat_ofNat']
    omega
  rw [readVarInt, readVarIntFrom, value, if_neg (by omega), Nat.mod_eq_of_lt (by omega),
    Nat.zero_mul, Nat.zero_add]

theorem unserialize_special (inverts : keys.Inverts)
    (compressed : compress keys script = some compr) (into : CScript) (s : List UInt8) :
    unserialize keys into (serialize keys script ++ s) = some (script, s) := by
  obtain ⟨form, vch, rfl, special, size, restored⟩ := decompress_of_compress inverts compressed
  rw [serialize, compressed]
  rw [List.cons_append, unserialize, readVarInt_form special]
  dsimp only
  rw [if_pos special, CScript.takeData_eq_some.mpr ⟨size, rfl⟩, Option.map_some, restored]
  rfl

theorem unserialize_plain (plain : compress keys script = none) (into : CScript) (s : List UInt8) :
    unserialize keys into (serialize keys script ++ s) =
      some (if maxScriptSize < script.length then into ++ [OP_RETURN] else script, s) := by
  rw [serialize, plain]
  rw [List.append_assoc, unserialize, readVarInt_writeVarInt (Int.natCast_nonneg _)]
  dsimp only
  rw [Int.toNat_natCast, if_neg (by omega), Nat.add_sub_cancel,
    CScript.takeData_eq_some.mpr ⟨rfl, rfl⟩]
  split <;> rfl

theorem length_of_compress (compressed : compress keys script = some compr) :
    script.length ≤ maxScriptSize := by
  have short : script.length ≤ 67 := by
    unfold compress at compressed
    split at compressed
    · rename_i found
      obtain ⟨length, rfl⟩ := isToKeyID_eq_some found
      simp [length]
    · split at compressed
      · rename_i found
        obtain ⟨length, rfl⟩ := isToScriptID_eq_some found
        simp [length]
      · split at compressed
        · rename_i found
          rcases isToPubKey_eq_some found with ⟨length, -, rfl⟩ | ⟨length, -, -, rfl⟩ <;>
            simp only [List.length_cons, List.length_append, List.length_nil] at length ⊢ <;> omega
        · cases compressed
  exact Nat.le_trans short (by decide)

theorem unserialize_serialize (inverts : keys.Inverts) (script into : CScript) (s : List UInt8) :
    unserialize keys into (serialize keys script ++ s) =
      some (if maxScriptSize < script.length then into ++ [OP_RETURN] else script, s) := by
  cases compressed : compress keys script with
  | none => exact unserialize_plain compressed into s
  | some compr =>
    rw [unserialize_special inverts compressed,
      if_neg (Nat.not_lt.mpr (length_of_compress compressed))]

end CScriptCompressor

namespace CTxOutCompressor

variable {keys : PubKeyOps}

theorem compressAmount_lt (n : ℕ) : compressAmount n < uint64Size := by
  have positive : 0 < uint64Size := by decide
  unfold compressAmount
  split
  · exact positive
  · dsimp only
    split
    · exact Nat.mod_lt _ positive
    · exact Nat.mod_lt _ positive

theorem toCAmount_decompressAmount {nValue : Int} (nonneg : 0 ≤ nValue)
    (small : nValue ≤ 21000000 * COIN) :
    toCAmount (decompressAmount (compressAmount (toUInt64 nValue))) = nValue := by
  have limit : nValue ≤ 2100000000000000 := small
  have size : uint64Size = 18446744073709551616 := rfl
  have value : toUInt64 nValue = nValue.toNat := by
    rw [toUInt64, size]
    omega
  rw [value, decompressAmount_compressAmount (by omega), toCAmount, size]
  split <;> omega

theorem unserialize_serialize (inverts : keys.Inverts) {out : CTxOut}
    (nonneg : 0 ≤ out.nValue) (small : out.nValue ≤ 21000000 * COIN) (into : CTxOut)
    (s : List UInt8) :
    unserialize keys into (serialize keys out ++ s) =
      some ({ into with
        nValue := out.nValue
        scriptPubKey := if maxScriptSize < List.length out.scriptPubKey then
          into.scriptPubKey ++ [OP_RETURN] else out.scriptPubKey }, s) := by
  rw [serialize, List.append_assoc, unserialize, readVarInt_writeVarInt (Int.natCast_nonneg _)]
  dsimp only
  rw [Int.toNat_natCast, Nat.mod_eq_of_lt (compressAmount_lt _),
    toCAmount_decompressAmount nonneg small, CScriptCompressor.unserialize_serialize inverts]
  rfl

def Survives (keys : PubKeyOps) (out : CTxOut) : Prop :=
  ∀ s, ∃ read, unserialize keys CTxOut.null (serialize keys out ++ s) = some (read, s) ∧
    read.nValue = out.nValue ∧ read.scriptPubKey = out.scriptPubKey

theorem survives_iff (inverts : keys.Inverts) {out : CTxOut} (nonneg : 0 ≤ out.nValue)
    (small : out.nValue ≤ 21000000 * COIN) :
    Survives keys out ↔ List.length out.scriptPubKey ≤ maxScriptSize := by
  simp only [Survives, unserialize_serialize inverts nonneg small]
  constructor
  · intro survives
    obtain ⟨read, same, -, script⟩ := survives []
    cases same
    by_contra long
    rw [if_pos (Nat.lt_of_not_le long)] at script
    rw [← script] at long
    exact long (show 1 ≤ maxScriptSize by decide)
  · intro short s
    exact ⟨_, rfl, rfl, if_neg (Nat.not_lt.mpr short)⟩

end CTxOutCompressor

open CTxOutCompressor

theorem moneyRange_bounds {network : Network} {nValue : Int}
    (range : (ofNetwork network).moneyRange nValue = true) :
    0 ≤ nValue ∧ nValue ≤ 21000000 * COIN := by
  have limit : (ofNetwork network).nMaxMoneyOut = 21000000 * COIN := by
    cases network <;> rfl
  simpa only [moneyRange, limit, Bool.and_eq_true, decide_eq_true_eq] using range

/-- **Which outputs survive the database.** An output that `FromTx` keeps is read back from its
compact encoding, value and script, exactly when its script is not longer than
`MAX_SCRIPT_SIZE`. -/
theorem kept_survives_iff {keys : PubKeyOps} (inverts : keys.Inverts) (network : Network)
    (tx : CTransaction) (nHeight : Int32) :
    ∀ out ∈ (CCoins.fromTx tx nHeight).vout,
      (ofNetwork network).moneyRange out.nValue = true →
        (Survives keys out ↔ List.length out.scriptPubKey ≤ maxScriptSize) := by
  intro out _ range
  obtain ⟨nonneg, small⟩ := moneyRange_bounds range
  exact survives_iff inverts nonneg small

/-- The base point of the curve as an uncompressed key; its second coordinate is even. -/
def basePoint : Valtype :=
  [0x04, 0x79, 0xbe, 0x66, 0x7e, 0xf9, 0xdc, 0xbb, 0xac, 0x55, 0xa0, 0x62, 0x95, 0xce,
    0x87, 0x0b, 0x07, 0x02, 0x9b, 0xfc, 0xdb, 0x2d, 0xce, 0x28, 0xd9, 0x59, 0xf2,
    0x81, 0x5b, 0x16, 0xf8, 0x17, 0x98, 0x48, 0x3a, 0xda, 0x77, 0x26, 0xa3, 0xc4,
    0x65, 0x5d, 0xa4, 0xfb, 0xfc, 0x0e, 0x11, 0x08, 0xa8, 0xfd, 0x17, 0xb4, 0x48,
    0xa6, 0x85, 0x54, 0x19, 0x9c, 0x47, 0xd0, 0x8f, 0xfb, 0x10, 0xd4, 0xb8]

def basePointOps : PubKeyOps where
  isFullyValid pubkey := pubkey == basePoint
  decompress pubkey := if pubkey = 0x02 :: basePoint.tail.take 32 then some basePoint else none

/-- A transaction that pays half a coin to the key and a little to a long script. -/
def basePointTx : CTransaction where
  hash := 1
  nVersion := 1
  vin := []
  vout := [.of 50000000 (0x41 :: (basePoint ++ [OP_CHECKSIG])), .of 1 (List.replicate 10001 0)]
  nLockTime := 0

theorem basePointOps_inverts : basePointOps.Inverts := by
  intro pubkey _ _ valid
  cases eq_of_beq valid
  rfl

theorem basePointTx_kept : (CCoins.fromTx basePointTx 7).vout = basePointTx.vout := rfl

theorem kept_survives_basePoint :
    Survives basePointOps (.of 50000000 (0x41 :: (basePoint ++ [OP_CHECKSIG]))) :=
  (kept_survives_iff basePointOps_inverts .main basePointTx 7 _
    (basePointTx_kept ▸ List.mem_cons_self) (by decide)).mpr (by decide)

/-- The output with the long script is kept and does not survive. -/
theorem not_survives_longScript :
    ¬ ∀ keys : PubKeyOps, keys.Inverts → ∀ (network : Network) (tx : CTransaction)
      (nHeight : Int32), ∀ out ∈ (CCoins.fromTx tx nHeight).vout,
        (ofNetwork network).moneyRange out.nValue = true → Survives keys out := by
  intro survive
  have kept : CTxOut.of 1 (List.replicate 10001 0) ∈ (CCoins.fromTx basePointTx 7).vout :=
    basePointTx_kept ▸ List.mem_cons_of_mem _ List.mem_cons_self
  have survives := survive _ basePointOps_inverts .main basePointTx 7 _ kept (by decide)
  have short := (survives_iff basePointOps_inverts (by decide) (by decide)).mp survives
  change (List.replicate 10001 (0 : UInt8)).length ≤ 10000 at short
  rw [List.length_replicate] at short
  omega

/-- **Variable-length integers and compressed amounts.** `WriteVarInt` stays in its buffer and
`ReadVarInt` reads the number back; amounts come back from their codes, and codes from their
amounts where these, with all their zeros, are below `2 ^ 60`. -/
theorem varInts_and_amounts :
    (∀ width, width = 32 ∨ width = 64 → ∀ n < 2 ^ width,
      ∃ bytes, fillVarInt ((width + 6) / 7) n [] = some bytes ∧
        bytes.length = getSizeOfVarInt n ∧
        ∀ s, readVarIntWord width 0 (bytes ++ s) = some (n, s)) ∧
    (∀ network (n : ℕ), (n : Int) ≤ (ofNetwork network).nMaxMoneyOut →
      decompressAmount (compressAmount n) = n) ∧
    ∀ x < uint64Size, exactAmount x < 2 ^ 60 → compressAmount (decompressAmount x) = x := by
  refine ⟨fun width word n fits => fillVarInt_read word fits, fun network n small => ?_,
    fun x word small => ?_⟩
  · have range : (ofNetwork network).moneyRange n = true := by
      simp [moneyRange, small]
    have limit : (n : Int) ≤ 2100000000000000 := (moneyRange_bounds range).2
    exact decompressAmount_compressAmount (by rw [uint64Size]; omega)
  · rw [decompressAmount_eq, Nat.mod_eq_of_lt (Nat.lt_trans small (by decide)),
      compressAmount_exactAmount word]

/-- The zeros of an amount push all its digits out of the word. -/
theorem compressAmount_decompressAmount_zero :
    ¬∀ x < uint64Size, decompressAmount x < 2 ^ 60 → compressAmount (decompressAmount x) = x := by
  intro survives
  have lost : decompressAmount 360287970189639680 = 0 := by decide
  have same := survives 360287970189639680 (by decide) (by rw [lost]; decide)
  cases same

end DogeCash
