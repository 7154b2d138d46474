import DogeCash.Script.Instruction

/-! # Variable-length integers

`WriteVarInt` writes the digits of a number to the base 128, the highest first, all but the
last byte with its high bit set and one less than the digit they stand for. The numbers here
are integers: on a signed type a negative number counts as at most `0x7F`.
-/

namespace DogeCash

def getSizeOfVarInt (n : Int) : ℕ := if n ≤ 0x7f then 1 else getSizeOfVarInt (n / 128 - 1) + 1
termination_by n.toNat

/-- The loops of `WriteVarInt`; `more` says that a byte is not the last one written. -/
def writeVarIntFrom (more : Bool) (n : Int) : List UInt8 :=
  let byte := UInt8.ofNat ((n % 128).toNat + if more then 128 else 0)
  if n ≤ 0x7f then [byte] else writeVarIntFrom true (n / 128 - 1) ++ [byte]
termination_by n.toNat

def writeVarInt (n : Int) : List UInt8 := writeVarIntFrom false n

/-- The loop of `ReadVarInt`, without the reduction to the type that is read. -/
def readVarIntFrom (n : ℕ) : List UInt8 → Option (ℕ × List UInt8)
  | [] => none
  | chData :: s =>
    let n := n * 128 + chData.toNat % 128
    if 128 ≤ chData.toNat then readVarIntFrom (n + 1) s else some (n, s)

/-- `ReadVarInt`. The loop computes modulo the size of the type; so does the conversion of its
result. `none` where the stream is at its end. -/
def readVarInt (s : List UInt8) : Option (ℕ × List UInt8) := readVarIntFrom 0 s

theorem writeVarIntFrom_length (more : Bool) (n : Int) :
    (writeVarIntFrom more n).length = getSizeOfVarInt n := by
  induction more, n using writeVarIntFrom.induct with
  | case1 more n low =>
    rw [writeVarIntFrom, getSizeOfVarInt, if_pos low, if_pos low, List.length_singleton]
  | case2 more n high ih =>
    rw [writeVarIntFrom, getSizeOfVarInt, if_neg high, if_neg high, List.length_append, ih,
      List.length_singleton]

theorem writeVarInt_length (n : Int) : (writeVarInt n).length = getSizeOfVarInt n :=
  writeVarIntFrom_length false n

private theorem readVarIntFrom_byte (n digit : ℕ) (more : Bool) (small : digit < 128)
    (s : List UInt8) :
    readVarIntFrom n (UInt8.ofNat (digit + if more then 128 else 0) :: s) =
      if more then readVarIntFrom (n * 128 + digit + 1) s else some (n * 128 + digit, s) := by
  have value : (UInt8.ofNat (digit + if more then 128 else 0)).toNat =
      digit + if more then 128 else 0 := by
    rw [UInt8.toNat_ofNat']
    split <;> omega
  rw [readVarIntFrom, value]
  cases more with
  | true =>
    simp only [↓reduceIte]
    rw [if_pos (by omega), show (digit + 128) % 128 = digit by omega]
  | false =>
    simp only [Bool.false_eq_true, ↓reduceIte, Nat.add_zero]
    rw [if_neg (by omega), Nat.mod_eq_of_lt small]

theorem readVarIntFrom_writeVarIntFrom (more : Bool) (n : Int) (nonneg : 0 ≤ n)
    (s : List UInt8) :
    readVarIntFrom 0 (writeVarIntFrom more n ++ s) =
      if more then readVarIntFrom (n.toNat + 1) s else some (n.toNat, s) := by
  induction more, n using writeVarIntFrom.induct generalizing s with
  | case1 more n low =>
    rw [writeVarIntFrom, if_pos low, List.singleton_append, readVarIntFrom_byte _ _ _ (by omega)]
    have digit : (n % 128).toNat = n.toNat := by omega
    simp [digit]
  | case2 more n high ih =>
    rw [writeVarIntFrom, if_neg high, List.append_assoc, ih (by omega), if_pos rfl,
      List.singleton_append, readVarIntFrom_byte _ _ _ (by omega)]
    have digits : ((n / 128 - 1).toNat + 1) * 128 + (n % 128).toNat = n.toNat := by omega
    simp only [digits]

/-- **Variable-length integers round-trip**, whatever follows them. -/
theorem readVarInt_writeVarInt {n : Int} (nonneg : 0 ≤ n) (s : List UInt8) :
    readVarInt (writeVarInt n ++ s) = some (n.toNat, s) :=
  readVarIntFrom_writeVarIntFrom false n nonneg s

theorem readVarInt_writeVarInt_neg {n : Int} (negative : n < 0) (s : List UInt8) :
    readVarInt (writeVarInt n ++ s) = some ((n % 128).toNat, s) := by
  have byte := readVarIntFrom_byte 0 (n % 128).toNat false (by omega) s
  rw [Nat.zero_mul, Nat.zero_add] at byte
  rw [writeVarInt, writeVarIntFrom, if_pos (by omega), List.singleton_append, readVarInt]
  exact byte

/-! ## Where the size grows -/

/-- The largest number that takes `k + 1` bytes. -/
def varIntLimit : ℕ → ℕ
  | 0 => 127
  | k + 1 => 128 * (varIntLimit k + 1) + 127

theorem getSizeOfVarInt_pos (n : Int) : 0 < getSizeOfVarInt n := by
  rw [getSizeOfVarInt]
  split
  · exact Nat.one_pos
  · exact Nat.succ_pos _

theorem getSizeOfVarInt_le_iff (n : Int) (k : ℕ) :
    getSizeOfVarInt n ≤ k + 1 ↔ n ≤ varIntLimit k := by
  induction k generalizing n with
  | zero =>
    rw [getSizeOfVarInt]
    split
    · exact ⟨fun _ => by assumption, fun _ => Nat.le_refl 1⟩
    · rename_i high
      have := getSizeOfVarInt_pos (n / 128 - 1)
      exact ⟨fun small => by omega, fun low => absurd low high⟩
  | succ k ih =>
    rw [getSizeOfVarInt, varIntLimit]
    split
    · exact ⟨fun _ => by omega, fun _ => by omega⟩
    · rw [Nat.add_le_add_iff_right, ih]
      omega

theorem getSizeOfVarInt_eq_iff {first second : Int} (ordered : first ≤ second) :
    getSizeOfVarInt first = getSizeOfVarInt second ↔
      ∀ k, ¬ (first ≤ varIntLimit k ∧ (varIntLimit k : Int) < second) := by
  constructor
  · rintro same k ⟨below, above⟩
    have := (getSizeOfVarInt_le_iff first k).mpr below
    have := mt (getSizeOfVarInt_le_iff second k).mp (by omega)
    omega
  · intro apart
    obtain ⟨k, size⟩ : ∃ k, getSizeOfVarInt first = k + 1 :=
      ⟨_, (Nat.succ_pred_eq_of_pos (getSizeOfVarInt_pos first)).symm⟩
    obtain ⟨l, size'⟩ : ∃ l, getSizeOfVarInt second = l + 1 :=
      ⟨_, (Nat.succ_pred_eq_of_pos (getSizeOfVarInt_pos second)).symm⟩
    have below := (getSizeOfVarInt_le_iff first k).mp (by omega)
    have above := (getSizeOfVarInt_le_iff second l).mp (by omega)
    have secondLe : getSizeOfVarInt second ≤ k + 1 :=
      (getSizeOfVarInt_le_iff second k).mpr (by have := apart k; omega)
    have firstLe : getSizeOfVarInt first ≤ l + 1 := (getSizeOfVarInt_le_iff first l).mpr (by omega)
    omega

/-! ## In the buffer and in a machine word -/

/-- The loop of `WriteVarInt` that fills its buffer. `tmp` is what it has written, the last byte
first. Nothing where it writes behind the buffer. -/
def fillVarInt (size n : ℕ) (tmp : List UInt8) : Option (List UInt8) :=
  if size ≤ tmp.length then none
  else
    let tmp := UInt8.ofNat (n % 128 + if tmp.length ≠ 0 then 128 else 0) :: tmp
    if n ≤ 0x7f then some tmp else fillVarInt size (n / 128 - 1) tmp
termination_by n

/-- The loop of `ReadVarInt` on an unsigned type of so many bits. -/
def readVarIntWord (width n : ℕ) : List UInt8 → Option (ℕ × List UInt8)
  | [] => none
  | chData :: s =>
    let n := (n * 128 % 2 ^ width) ||| (chData.toNat % 128)
    if 128 ≤ chData.toNat then readVarIntWord width ((n + 1) % 2 ^ width) s else some (n, s)

theorem fillVarInt_eq {size n : ℕ} {tmp : List UInt8}
    (room : tmp.length + getSizeOfVarInt n ≤ size) :
    fillVarInt size n tmp = some (writeVarIntFrom (decide (tmp.length ≠ 0)) n ++ tmp) := by
  induction n, tmp using fillVarInt.induct size with
  | case1 n tmp full =>
    have positive := getSizeOfVarInt_pos n
    omega
  | case2 n tmp free low =>
    have digit : ((n : Int) % 128).toNat = n % 128 := by omega
    have last : (n : Int) ≤ 127 := by omega
    rw [fillVarInt, if_neg free, if_pos low, writeVarIntFrom]
    simp [digit, last]
  | case3 n tmp free tmp' high ih =>
    have digit : ((n : Int) % 128).toNat = n % 128 := by omega
    have less : ((n : Int) / 128 - 1) = ((n / 128 - 1 : ℕ) : Int) := by omega
    have more : ¬(n : Int) ≤ 127 := by omega
    rw [getSizeOfVarInt, if_neg more, less] at room
    rw [fillVarInt, if_neg free, if_neg high]
    refine (ih (by simp only [tmp', List.length_cons]; omega)).trans ?_
    rw [writeVarIntFrom.eq_def _ (n : Int), less]
    simp [tmp', digit, more]

theorem readVarIntWord_eq {width n : ℕ} (wide : 7 ≤ width) (s : List UInt8) :
    readVarIntWord width (n % 2 ^ width) s =
      (readVarIntFrom n s).map fun read => (read.1 % 2 ^ width, read.2) := by
  induction s generalizing n with
  | nil => rfl
  | cons chData s ih =>
    obtain ⟨more, rfl⟩ := Nat.exists_eq_add_of_le wide
    have digit : (n % 2 ^ (7 + more) * 128 % 2 ^ (7 + more)) ||| (chData.toNat % 128) =
        (n * 128 + chData.toNat % 128) % 2 ^ (7 + more) := by
      have small := Nat.mod_lt chData.toNat (show 0 < 2 ^ 7 by decide)
      rw [Nat.mod_mul_mod, Nat.pow_add, Nat.mul_comm n 128, show 128 = 2 ^ 7 from rfl,
        Nat.mul_mod_mul_left, ← Nat.two_pow_add_eq_or_of_lt small, Nat.mod_mul,
        Nat.mul_add_mod, Nat.mod_mod, Nat.mul_add_div (by decide), Nat.div_eq_of_lt small,
        Nat.add_zero, Nat.add_comm]
    rw [readVarIntWord, readVarIntFrom]
    simp only [digit]
    split_ifs
    · rw [Nat.mod_add_mod, ih]
    · rfl

/-- **Unsigned words survive** in a buffer with a byte for every seven bits, begun or whole. -/
theorem fillVarInt_read {width n : ℕ} (word : width = 32 ∨ width = 64) (fits : n < 2 ^ width) :
    ∃ bytes, fillVarInt ((width + 6) / 7) n [] = some bytes ∧
      bytes.length = getSizeOfVarInt n ∧
      ∀ s, readVarIntWord width 0 (bytes ++ s) = some (n, s) := by
  have room : getSizeOfVarInt n ≤ (width + 6) / 7 := by
    rcases word with rfl | rfl
    · exact (getSizeOfVarInt_le_iff n 4).mpr (by simp only [varIntLimit]; omega)
    · exact (getSizeOfVarInt_le_iff n 9).mpr (by simp only [varIntLimit]; omega)
  have filled := @fillVarInt_eq ((width + 6) / 7) n [] (by simpa using room)
  rw [List.append_nil] at filled
  refine ⟨_, filled, writeVarInt_length n, fun s => ?_⟩
  have read := @readVarIntWord_eq width 0 (by omega) (writeVarInt n ++ s)
  have whole : readVarIntFrom 0 (writeVarInt n ++ s) = some (n, s) :=
    readVarInt_writeVarInt (Int.natCast_nonneg n) s
  rw [whole, Nat.zero_mod, Option.map_some, Nat.mod_eq_of_lt fits] at read
  exact read

end DogeCash
