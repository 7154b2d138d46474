import Mathlib.Data.Nat.Bitwise

/-! # Bits packed in bytes

A list of bits is packed eight to a byte, the lowest first, by setting one bit after the
other in bytes that are zero at first. Unpacking gives the bits back, and after them as many
zeros as the last byte has room for.
-/

namespace DogeCash.PackedBits

def single (flag : Bool) (k : ℕ) : UInt8 := flag.toUInt8 <<< UInt8.ofNat k

def setBit (bits : List Bool) (bytes : List UInt8) (p : ℕ) : List UInt8 :=
  bytes.modify (p / 8) (· ||| single (bits.getD p false) (p % 8))

def pack (bits : List Bool) : List UInt8 :=
  (List.range bits.length).foldl (setBit bits) (List.replicate ((bits.length + 7) / 8) 0)

def bitAt (bytes : List UInt8) (p : ℕ) : Bool := bytes.getD (p / 8) 0 &&& single true (p % 8) != 0

def unpack (bytes : List UInt8) : List Bool := (List.range (bytes.length * 8)).map (bitAt bytes)

variable {flag : Bool} {k : ℕ} {bits : List Bool} {bytes : List UInt8}

theorem single_toNat (small : k < 8) : (single flag k).toNat = flag.toNat * 2 ^ k := by
  have bound : k < UInt8.size := Nat.lt_trans small (by decide)
  have power : 2 ^ k < 2 ^ 8 := Nat.pow_lt_pow_right Nat.one_lt_two small
  rw [single, UInt8.toNat_shiftLeft, UInt8.toNat_ofNat_of_lt' bound, Nat.mod_eq_of_lt small,
    Nat.shiftLeft_eq]
  cases flag with
  | false =>
    change 0 * 2 ^ k % 2 ^ 8 = 0 * 2 ^ k
    rw [Nat.zero_mul, Nat.zero_mod]
  | true =>
    change 1 * 2 ^ k % 2 ^ 8 = 1 * 2 ^ k
    rw [Nat.one_mul, Nat.mod_eq_of_lt power]

theorem testBit_single {k j : ℕ} (small : k < 8) :
    (single flag k).toNat.testBit j = (decide (k = j) && flag) := by
  rw [single_toNat small]
  cases flag with
  | false => rw [Bool.toNat_false, Nat.zero_mul, Nat.zero_testBit, Bool.and_false]
  | true => rw [Bool.toNat_true, Nat.one_mul, Nat.testBit_two_pow, Bool.and_true]

theorem bne_and_single {byte : UInt8} (small : k < 8) :
    (byte &&& single true k != 0) = byte.toNat.testBit k := by
  have masked : (byte &&& single true k).toNat = (byte.toNat.testBit k).toNat * 2 ^ k := by
    rw [UInt8.toNat_and, single_toNat small, Bool.toNat_true, Nat.one_mul, Nat.and_two_pow]
  rw [Bool.eq_iff_iff, bne_iff_ne, ne_eq, ← UInt8.toNat_inj, masked]
  cases byte.toNat.testBit k with
  | false => simp
  | true => simp

theorem bitAt_eq (bytes : List UInt8) (p : ℕ) :
    bitAt bytes p = (bytes.getD (p / 8) 0).toNat.testBit (p % 8) :=
  bne_and_single (Nat.mod_lt p (by decide))

theorem length_setBit (bits : List Bool) (bytes : List UInt8) (p : ℕ) :
    (setBit bits bytes p).length = bytes.length := List.length_modify _ _ _

theorem bitAt_setBit {p : ℕ} (q : ℕ) (inside : p < bytes.length * 8) :
    bitAt (setBit bits bytes p) q = (bitAt bytes q || (decide (p = q) && bits.getD p false)) := by
  have within : p / 8 < bytes.length := Nat.div_lt_of_lt_mul (by omega)
  have modified : (setBit bits bytes p).getD (q / 8) 0 =
      if p / 8 = q / 8 then bytes.getD (q / 8) 0 ||| single (bits.getD p false) (p % 8)
      else bytes.getD (q / 8) 0 := by
    rw [setBit]
    generalize single (bits.getD p false) (p % 8) = mask
    simp only [List.getD_eq_getElem?_getD, List.getElem?_modify]
    split_ifs with byte
    · rw [← byte, List.getElem?_eq_getElem within]
      rfl
    · rw [Option.map_eq_map, Option.map_id']
  rw [bitAt_eq, bitAt_eq, modified]
  split_ifs with byte
  · have bit : (p = q) ↔ (p % 8 = q % 8) := by omega
    rw [UInt8.toNat_or, Nat.testBit_or, testBit_single (Nat.mod_lt p (by decide)),
      decide_eq_decide.mpr bit]
  · have apart : p ≠ q := fun same => byte (congrArg (· / 8) same)
    rw [decide_eq_false apart, Bool.false_and, Bool.or_false]

theorem bitAt_zeros (count q : ℕ) : bitAt (List.replicate count 0) q = false := by
  have zero : (List.replicate count (0 : UInt8)).getD (q / 8) 0 = 0 := by
    rw [List.getD_eq_getElem?_getD, List.getElem?_replicate]
    split_ifs <;> rfl
  rw [bitAt_eq, zero]
  exact Nat.zero_testBit _

theorem bitAt_foldl (zeros : ∀ q, bitAt bytes q = false) (count : ℕ)
    (fits : count ≤ bytes.length * 8) :
    ((List.range count).foldl (setBit bits) bytes).length = bytes.length ∧
      ∀ q, bitAt ((List.range count).foldl (setBit bits) bytes) q =
        (decide (q < count) && bits.getD q false) := by
  induction count with
  | zero =>
    refine ⟨rfl, fun q => ?_⟩
    exact zeros q
  | succ count ih =>
    obtain ⟨length, before⟩ := ih (Nat.le_of_succ_le fits)
    rw [List.range_succ, List.foldl_append, List.foldl_cons, List.foldl_nil]
    refine ⟨(length_setBit _ _ _).trans length, fun q => ?_⟩
    rw [bitAt_setBit q (by rw [length]; exact fits), before]
    by_cases last : count = q
    · subst last
      rw [decide_eq_true rfl, decide_eq_false (Nat.lt_irrefl _),
        decide_eq_true (Nat.lt_succ_self _), Bool.false_and, Bool.false_or]
    · have bound : q < count + 1 ↔ q < count := by omega
      rw [decide_eq_false last, Bool.false_and, Bool.or_false, decide_eq_decide.mpr bound]

theorem length_pack (bits : List Bool) : (pack bits).length = (bits.length + 7) / 8 := by
  have fits : bits.length ≤ (List.replicate ((bits.length + 7) / 8) (0 : UInt8)).length * 8 := by
    rw [List.length_replicate]
    omega
  exact (bitAt_foldl (bitAt_zeros _) _ fits).1.trans List.length_replicate

/-- **Packed bits are unpacked.** After them there are zeros up to the end of the last byte. -/
theorem unpack_pack (bits : List Bool) :
    unpack (pack bits) =
      bits ++ List.replicate ((bits.length + 7) / 8 * 8 - bits.length) false := by
  have fits : bits.length ≤ (List.replicate ((bits.length + 7) / 8) (0 : UInt8)).length * 8 := by
    rw [List.length_replicate]
    omega
  have packed : ∀ q, bitAt (pack bits) q = (decide (q < bits.length) && bits.getD q false) :=
    (bitAt_foldl (bitAt_zeros _) _ fits).2
  apply List.ext_getElem?
  intro p
  rw [unpack, List.getElem?_map, length_pack, List.getElem?_append]
  by_cases inside : p < bits.length
  · rw [if_pos inside, List.getElem?_range (by omega), Option.map_some, packed,
      decide_eq_true inside, Bool.true_and, List.getElem?_eq_getElem inside,
      List.getD_eq_getElem _ _ inside]
  · rw [if_neg inside, List.getElem?_replicate]
    by_cases room : p < (bits.length + 7) / 8 * 8
    · rw [if_pos (by omega), List.getElem?_range room, Option.map_some, packed,
        decide_eq_false inside, Bool.false_and]
    · rw [if_neg (by omega), List.getElem?_eq_none (by rw [List.length_range]; omega),
        Option.map_none]

end DogeCash.PackedBits
