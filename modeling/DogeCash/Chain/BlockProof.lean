import DogeCash.Chain.ArrivingBlocks

/-! # The work of a block

`GetBlockProof` divides `2 ^ 256` by the target and one. The dividend does not fit a `uint256`, so
that it divides the complement of the target and adds one. No compact form stands for the greatest
number, which is the only target that has no successor.
-/

namespace DogeCash

open UInt256
open BitVec (lt_def toNat_add toNat_udiv)

/-- `GetBlockProof` with the operators of `base_uint`; the division can throw. -/
def blockProof (nBits : UInt32) : Option UInt256 :=
  let bnTarget := setCompact nBits
  let (fNegative, fOverflow) := compactFlags nBits
  if fNegative || fOverflow || bnTarget = 0 then some 0
  else (divide (complement bnTarget) (addAssign bnTarget 1)).map (addAssign · 1)

/-- The bits stand for a target: one that `SetCompact` reports neither as negative nor as too large,
and that is not zero. -/
structure IsTarget (nBits : UInt32) (target : UInt256) : Prop where
  decoded : setCompact nBits = target
  flags : compactFlags nBits = (false, false)
  nonzero : target ≠ 0

theorem toNat_setCompact_lt (nBits : UInt32) : (setCompact nBits).toNat + 1 < 2 ^ 256 := by
  have mantissa : (nBits &&& 0x007fffff).toNat < 2 ^ 23 := by
    rw [UInt32.toNat_and, show (0x007fffff : UInt32).toNat = 2 ^ 23 - 1 from rfl,
      Nat.and_two_pow_sub_one_eq_mod]
    exact Nat.mod_lt _ (by decide)
  have below := (setCompact nBits).isLt
  unfold setCompact at below ⊢
  dsimp only at below ⊢
  split_ifs at below ⊢ with short
  · have small := Nat.div_le_self (nBits &&& 0x007fffff).toNat (256 ^ (3 - (nBits >>> 24).toNat))
    rw [BitVec.toNat_ofNat, Nat.mod_eq_of_lt (by omega)]
    omega
  · rw [BitVec.toNat_shiftLeft, Nat.shiftLeft_eq] at below ⊢
    have even : 2 ∣ 2 ^ (8 * ((nBits >>> 24).toNat - 3)) := dvd_pow_self 2 (by omega)
    have kept := (Nat.dvd_mod_iff (show 2 ∣ 2 ^ 256 by decide)).mpr
      (Dvd.dvd.mul_left even (BitVec.ofNat 256 (nBits &&& 0x007fffff).toNat).toNat)
    omega

theorem blockProof_eq (nBits : UInt32) : blockProof nBits = some (getBlockProof nBits) := by
  have successor : setCompact nBits + 1 ≠ 0 := by
    intro wraps
    have room := toNat_setCompact_lt nBits
    have sum := congrArg BitVec.toNat wraps
    rw [toNat_add, show (1 : UInt256).toNat = 1 from rfl, Nat.mod_eq_of_lt room] at sum
    cases sum
  simp only [blockProof, getBlockProof, divide_eq, addAssign_eq, complement_eq,
    divAssign_eq successor, Option.map_some]
  split_ifs <;> rfl

theorem toNat_getBlockProof {nBits : UInt32} {target : UInt256} (valid : IsTarget nBits target) :
    (getBlockProof nBits).toNat = 2 ^ 256 / (target.toNat + 1) := by
  have room := toNat_setCompact_lt nBits
  have positive : 0 < target.toNat :=
    Nat.pos_of_ne_zero fun zero => valid.nonzero (BitVec.eq_of_toNat_eq zero)
  have quotient := Nat.div_eq_sub_div (Nat.succ_pos target.toNat)
    (Nat.le_of_lt (valid.decoded ▸ room))
  have fits : 2 ^ 256 / (target.toNat + 1) < 2 ^ 256 := Nat.div_lt_self (by decide) (by omega)
  rw [valid.decoded] at room
  simp only [getBlockProof, valid.flags, valid.decoded, valid.nonzero, Bool.or_false, decide_false,
    Bool.false_eq_true, ↓reduceIte]
  rw [toNat_add, toNat_udiv, BitVec.toNat_not, toNat_add, show (1 : UInt256).toNat = 1 from rfl,
    Nat.mod_eq_of_lt room, Nat.sub_sub, Nat.add_comm 1, ← quotient, Nat.mod_eq_of_lt fits]

/-- **The operators of `base_uint` are those of the integers** modulo `2 ^ 256`, and the work of a
block is the quotient of `2 ^ 256`. -/
theorem arithmetic_of_uint256 (a b : UInt256) (b32 shift : UInt32) :
    (addAssign a b).toNat = (a.toNat + b.toNat) % 2 ^ 256 ∧
    ((subAssign a b).toNat : Int) = (a.toNat - b.toNat) % 2 ^ 256 ∧
    (mulWord a b32).toNat = a.toNat * b32.toNat % 2 ^ 256 ∧
    (mulAssign a b).toNat = a.toNat * b.toNat % 2 ^ 256 ∧
    (shiftLeftAssign a shift.toNat).toNat = a.toNat * 2 ^ shift.toNat % 2 ^ 256 ∧
    (shiftRightAssign a shift.toNat).toNat = a.toNat / 2 ^ shift.toNat ∧
    (compareTo a b < 0 ↔ a.toNat < b.toNat) ∧ (compareTo a b = 0 ↔ a.toNat = b.toNat) ∧
    (∀ length, countBits a ≤ length ↔ a.toNat < 2 ^ length) ∧
    (divide a b = none ↔ b = 0) ∧
    (∀ quotient ∈ divide a b, quotient.toNat = a.toNat / b.toNat) ∧
    ∀ nBits target, IsTarget nBits target →
      ∃ work ∈ blockProof nBits, work.toNat = 2 ^ 256 / (target.toNat + 1) := by
  refine ⟨?_, ?_, toNat_mulWord a b32, ?_, ?_, ?_, ?_, ?_, fun length => ?_, ?_, ?_,
    fun nBits target valid => ⟨_, blockProof_eq nBits, toNat_getBlockProof valid⟩⟩
  · rw [addAssign_eq, toNat_add]
  · rw [subAssign_eq, BitVec.toNat_sub]
    omega
  · rw [mulAssign_eq, BitVec.toNat_mul]
  · rw [shiftLeftAssign_eq, BitVec.toNat_shiftLeft, Nat.shiftLeft_eq]
  · rw [shiftRightAssign_eq, BitVec.toNat_ushiftRight, Nat.shiftRight_eq_div_pow]
  · rw [compareTo_eq, ← lt_def]
    split_ifs with less more <;> simp [less]
  · simp only [compareTo_eq, lt_def]
    split_ifs with less more
    · simp [Nat.ne_of_lt less]
    · simp [Nat.ne_of_gt more]
    · exact iff_of_true rfl (Nat.le_antisymm (Nat.le_of_not_lt more) (Nat.le_of_not_lt less))
  · rw [countBits_eq]
    exact Nat.size_le
  · rw [divide_eq]
    by_cases zero : b = 0
    · rw [divAssign, if_pos (bits_eq_zero.mpr zero)]
      exact iff_of_true rfl zero
    · rw [divAssign_eq zero]
      exact iff_of_false (Option.some_ne_none _) zero
  · intro quotient divided
    rw [divide_eq] at divided
    by_cases zero : b = 0
    · rw [divAssign, if_pos (bits_eq_zero.mpr zero)] at divided
      cases divided
    · rw [divAssign_eq zero] at divided
      cases divided
      exact toNat_udiv

theorem arithmetic_of_uint256_easiest :
    ∃ work ∈ blockProof 0x1e0fffff,
      work.toNat = 2 ^ 256 / ((0xfffff : UInt256) <<< 216).toNat.succ :=
  have all := arithmetic_of_uint256 1 2 3 4
  all.2.2.2.2.2.2.2.2.2.2.2 0x1e0fffff _ ⟨rfl, by decide, by decide⟩

end DogeCash
