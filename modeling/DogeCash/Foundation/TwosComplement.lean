import DogeCash.Foundation.Radix

/-! # Two's complement

A string of bytes, the highest first, spells an integer in two's complement. The shortest strings
for the numbers that are not negative are the ones whose highest bit is clear, and that have no
zero byte in front, but where the highest bit behind it is set.
-/

namespace DogeCash.TwosComplement

def magnitude (bytes : List UInt8) : ℕ := Radix.value 256 (bytes.map UInt8.toNat)

def IsNegative (bytes : List UInt8) : Prop := ∃ first ∈ bytes.head?, 0x80 ≤ first.toNat

instance (bytes : List UInt8) : Decidable (IsNegative bytes) :=
  inferInstanceAs (Decidable (∃ first ∈ bytes.head?, _))

def value (bytes : List UInt8) : Int :=
  if IsNegative bytes then magnitude bytes - 256 ^ bytes.length else magnitude bytes

/-- One of the shortest strings for an integer; there is at least one byte. -/
structure IsShortest (bytes : List UInt8) (n : Int) : Prop where
  nonempty : bytes ≠ []
  spells : value bytes = n
  least : ∀ other, other ≠ [] → value other = n → bytes.length ≤ other.length

/-- The highest bit is clear, and a zero byte in front has one behind it whose highest bit is
set. -/
def IsMinimal : List UInt8 → Prop
  | [] => False
  | [byte] => byte.toNat < 0x80
  | byte :: next :: _ => byte.toNat < 0x80 ∧ (byte.toNat = 0 → 0x80 ≤ next.toNat)

variable {bytes rest : List UInt8} {byte : UInt8} {n : ℕ}

theorem magnitude_cons (byte : UInt8) (rest : List UInt8) :
    magnitude (byte :: rest) = magnitude rest + 256 ^ rest.length * byte.toNat := by
  rw [magnitude, List.map_cons, Radix.value_cons, List.length_map]
  rfl

theorem magnitude_lt (bytes : List UInt8) : magnitude bytes < 256 ^ bytes.length := by
  induction bytes with
  | nil => exact Nat.one_pos
  | cons byte rest ih =>
    have high : 256 ^ rest.length * (byte.toNat + 1) ≤ 256 ^ rest.length * 256 :=
      Nat.mul_le_mul_left _ byte.toNat_lt
    rw [magnitude_cons, List.length_cons, Nat.pow_succ]
    rw [Nat.mul_add_one] at high
    omega

theorem isNegative_cons : IsNegative (byte :: rest) ↔ 0x80 ≤ byte.toNat := by
  simp [IsNegative]

theorem not_isNegative (minimal : IsMinimal bytes) : ¬IsNegative bytes := by
  intro negative
  rcases bytes with _ | ⟨byte, _ | ⟨next, rest⟩⟩
  · exact minimal
  · exact absurd (isNegative_cons.mp negative) (not_le.mpr minimal)
  · exact absurd (isNegative_cons.mp negative) (not_le.mpr minimal.1)

theorem value_eq_natCast : value bytes = n ↔ ¬IsNegative bytes ∧ magnitude bytes = n := by
  have small : (magnitude bytes : Int) < 256 ^ bytes.length := by exact_mod_cast magnitude_lt bytes
  rw [value]
  split_ifs with negative
  · exact iff_of_false (by omega) fun both => both.1 negative
  · rw [Int.natCast_inj]
    exact (and_iff_right negative).symm

theorem magnitude_cons_lt (clear : byte.toNat < 0x80) :
    magnitude (byte :: rest) < 256 ^ rest.length * 0x80 := by
  have high : 256 ^ rest.length * (byte.toNat + 1) ≤ 256 ^ rest.length * 0x80 :=
    Nat.mul_le_mul_left _ clear
  have low := magnitude_lt rest
  rw [magnitude_cons]
  rw [Nat.mul_add_one] at high
  omega

theorem le_magnitude_of_isMinimal {next : UInt8} (minimal : IsMinimal (byte :: next :: rest)) :
    256 ^ rest.length * 0x80 ≤ magnitude (byte :: next :: rest) := by
  obtain ⟨-, padded⟩ := minimal
  rw [magnitude_cons, magnitude_cons, List.length_cons, Nat.pow_succ]
  by_cases zero : byte.toNat = 0
  · have high : 256 ^ rest.length * 0x80 ≤ 256 ^ rest.length * next.toNat :=
      Nat.mul_le_mul_left _ (padded zero)
    omega
  · have high : 256 ^ rest.length * 256 * 1 ≤ 256 ^ rest.length * 256 * byte.toNat :=
      Nat.mul_le_mul_left _ (Nat.pos_of_ne_zero zero)
    omega

theorem isShortest_iff : IsShortest bytes n ↔ IsMinimal bytes ∧ magnitude bytes = n := by
  constructor
  · intro shortest
    obtain ⟨nonneg, spells⟩ := value_eq_natCast.mp shortest.spells
    refine ⟨?_, spells⟩
    rcases bytes with _ | ⟨byte, _ | ⟨next, rest⟩⟩
    · exact shortest.nonempty rfl
    · exact not_le.mp (isNegative_cons.not.mp nonneg)
    · refine ⟨not_le.mp (isNegative_cons.not.mp nonneg), fun zero => ?_⟩
      by_contra clear
      have shorter : value (next :: rest) = n := by
        rw [magnitude_cons, zero, Nat.mul_zero, Nat.add_zero] at spells
        exact value_eq_natCast.mpr ⟨isNegative_cons.not.mpr clear, spells⟩
      have longer := shortest.least _ (List.cons_ne_nil _ _) shorter
      exact absurd longer (Nat.not_succ_le_self _)
  · intro both
    obtain ⟨minimal, spells⟩ := both
    refine ⟨?_, value_eq_natCast.mpr ⟨?_, spells⟩, fun other nonempty same => ?_⟩
    · rintro rfl
      exact minimal
    · exact not_isNegative minimal
    · obtain ⟨first, others, rfl⟩ := List.exists_cons_of_ne_nil nonempty
      obtain ⟨nonneg, same⟩ := value_eq_natCast.mp same
      have below : magnitude bytes < 256 ^ others.length * 0x80 := by
        rw [spells, ← same]
        exact magnitude_cons_lt (not_le.mp (isNegative_cons.not.mp nonneg))
      rcases bytes with _ | ⟨byte, _ | ⟨next, rest⟩⟩
      · exact minimal.elim
      · exact Nat.succ_le_succ (Nat.zero_le _)
      · have above := (le_magnitude_of_isMinimal minimal).trans_lt below
        have powers := Nat.lt_of_mul_lt_mul_right above
        have lengths := (Nat.pow_lt_pow_iff_right (by decide)).mp powers
        exact Nat.succ_le_succ lengths

end DogeCash.TwosComplement
