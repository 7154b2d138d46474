import DogeCash.Foundation.Limbs

/-! # Numbers as bytes

A number in a fixed number of bytes, the lowest first. As many bytes as a number has room for
give it back, and so do the bytes that any byte string of that length is the number of.
-/

namespace DogeCash

namespace Limbs

variable {B : ℕ}

theorem ofDigits_lt {limbs : List ℕ} (proper : Proper B limbs) :
    Nat.ofDigits B limbs < B ^ limbs.length := by
  induction limbs with
  | nil => exact Nat.one_pos
  | cons limb rest ih =>
    obtain ⟨first, others⟩ := proper_cons.mp proper
    have below : B * (Nat.ofDigits B rest + 1) ≤ B * B ^ rest.length :=
      Nat.mul_le_mul_left B (ih others)
    rw [Nat.ofDigits_cons, List.length_cons, Nat.pow_succ']
    rw [Nat.mul_add, Nat.mul_one] at below
    omega

theorem ofNat_ofDigits {limbs : List ℕ} (proper : Proper B limbs) :
    ofNat B limbs.length (Nat.ofDigits B limbs) = limbs := by
  induction limbs with
  | nil => rfl
  | cons limb rest ih =>
    obtain ⟨first, others⟩ := proper_cons.mp proper
    have positive : 0 < B := Nat.zero_lt_of_lt first
    rw [List.length_cons, ofNat, Nat.ofDigits_cons, Nat.add_mul_mod_self_left,
      Nat.mod_eq_of_lt first, Nat.add_mul_div_left _ _ positive, Nat.div_eq_of_lt first,
      Nat.zero_add, ih others]

end Limbs

namespace LittleEndian

def bytes (width n : ℕ) : List UInt8 := (Limbs.ofNat 256 width n).map UInt8.ofNat

def value (s : List UInt8) : ℕ := Nat.ofDigits 256 (s.map UInt8.toNat)

@[simp] theorem length_bytes (width n : ℕ) : (bytes width n).length = width := by
  rw [bytes, List.length_map, Limbs.length_ofNat]

theorem proper_toNat (s : List UInt8) : Limbs.Proper 256 (s.map UInt8.toNat) := by
  intro limb mem
  obtain ⟨byte, -, rfl⟩ := List.mem_map.mp mem
  exact byte.toNat_lt

theorem value_lt (s : List UInt8) : value s < 256 ^ s.length := by
  have bound := Limbs.ofDigits_lt (proper_toNat s)
  rwa [List.length_map] at bound

theorem value_bytes (width n : ℕ) : value (bytes width n) = n % 256 ^ width := by
  have back : (bytes width n).map UInt8.toNat = Limbs.ofNat 256 width n := by
    rw [bytes, List.map_map]
    refine (List.map_congr_left ?_).trans (List.map_id _)
    intro limb mem
    have proper : limb < 256 := Limbs.proper_ofNat (by decide) width n limb mem
    simp only [Function.comp_apply, UInt8.toNat_ofNat', id_eq]
    omega
  rw [value, back, Limbs.ofDigits_ofNat]

theorem value_bytes_of_lt {width n : ℕ} (fits : n < 256 ^ width) : value (bytes width n) = n := by
  rw [value_bytes, Nat.mod_eq_of_lt fits]

theorem bytes_value {s : List UInt8} {width : ℕ} (length : s.length = width) :
    bytes width (value s) = s := by
  have limbs := Limbs.ofNat_ofDigits (proper_toNat s)
  rw [List.length_map, length] at limbs
  rw [bytes, value, limbs, List.map_map]
  apply List.map_id''
  intro byte
  exact UInt8.ofNat_toNat

end LittleEndian

end DogeCash
