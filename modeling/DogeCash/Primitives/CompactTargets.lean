import DogeCash.Primitives.BaseUint

/-! # Rounding to a compact form

`uint256::GetCompact` computes in words of 32 and 64 bits, and asserts that the mantissa and the
size have room in the word that it returns. They always do, and the word rounds the number down to
one that has the same word.
-/

namespace DogeCash

open UInt32 (ofNat toNat_inj toNat_and toNat_ofNat' or_zero)

namespace UInt256

def getLow64 (a : UInt256) : UInt64 := UInt64.ofNat (a.limb 0 ||| a.limb 1 <<< 32)

/-- `uint256::GetCompact`, in the words that it computes with. Nothing where an assertion fails. -/
def getCompactWord (a : UInt256) (fNegative : Bool) : Option UInt32 :=
  let nSize := (countBits a + 7) / 8
  let nCompact : UInt32 :=
    if nSize ≤ 3 then (getLow64 a <<< UInt64.ofNat (8 * (3 - nSize))).toUInt32
    else (getLow64 (shiftRightAssign a (8 * (nSize - 3)))).toUInt32
  let (nCompact, nSize) :=
    if nCompact &&& 0x00800000 ≠ 0 then (nCompact >>> 8, nSize + 1) else (nCompact, nSize)
  if nCompact &&& ~~~0x007fffff ≠ 0 then none
  else if 256 ≤ nSize then none
  else
    let nCompact := nCompact ||| ofNat nSize <<< 24
    some (nCompact ||| if fNegative && nCompact &&& 0x007fffff ≠ 0 then 0x00800000 else 0)

theorem toNat_getLow64 (a : UInt256) : (getLow64 a).toNat = a.toNat % 2 ^ 64 := by
  have one : a.toNat % 2 ^ 32 = a.limb 0 := by
    rw [limb_eq, Nat.mul_zero, Nat.pow_zero, Nat.div_one]
  have both : a.toNat % 2 ^ 64 = a.toNat % 2 ^ 32 + 2 ^ 32 * a.limb 1 := a.mod_pow_succ 1
  rw [getLow64, UInt64.toNat_ofNat', Nat.or_comm, Nat.shiftLeft_eq, Nat.mul_comm,
    ← Nat.two_pow_add_eq_or_of_lt (a.limb_lt 0), Nat.add_comm, ← one, ← both, Nat.mod_mod]

end UInt256

namespace Compact

variable {nCompact : UInt32}

theorem assembled {nSize : ℕ} (mantissa : nCompact.toNat < 2 ^ 23) (size : nSize < 256) :
    nCompact &&& ~~~0x007fffff = 0 ∧
      nCompact ||| ofNat nSize <<< 24 = ofNat (nSize * 2 ^ 24 + nCompact.toNat) := by
  have kept : nCompact &&& 0x007fffff = nCompact := by
    apply toNat_inj.mp
    rw [toNat_and, show (0x007fffff : UInt32).toNat = 2 ^ 23 - 1 from rfl,
      Nat.and_two_pow_sub_one_of_lt_two_pow mantissa]
  constructor
  · rw [← kept, UInt32.and_assoc, UInt32.and_not_self, UInt32.and_zero]
  · apply toNat_inj.mp
    have shifted : (ofNat nSize <<< 24).toNat = 2 ^ 24 * nSize := by
      rw [UInt32.toNat_shiftLeft, toNat_ofNat', show (24 : UInt32).toNat % 32 = 24 from rfl,
        Nat.shiftLeft_eq]
      omega
    rw [UInt32.toNat_or, shifted, Nat.or_comm,
      ← Nat.two_pow_add_eq_or_of_lt (Nat.lt_trans mantissa (by decide)), toNat_ofNat']
    omega

theorem sign_eq_zero_iff (mantissa : nCompact.toNat < 2 ^ 24) :
    nCompact &&& 0x00800000 = 0 ↔ nCompact.toNat < 2 ^ 23 := by
  rw [← toNat_inj, toNat_and, show (0x00800000 : UInt32).toNat = 2 ^ 23 from rfl,
    Nat.and_two_pow, Nat.testBit_eq_decide_div_mod_eq]
  by_cases low : nCompact.toNat < 2 ^ 23
  · rw [Nat.div_eq_of_lt low]
    exact iff_of_true rfl low
  · rw [Nat.div_eq_of_lt_le (k := 1) (by omega) (by omega)]
    exact iff_of_false (by decide) low

end Compact

namespace UInt256

/-- **The assertions hold**, and the word is the compact form. -/
theorem getCompactWord_eq (a : UInt256) :
    getCompactWord a false = some (ofNat (getCompact a false)) := by
  have size : (countBits a + 7) / 8 = Compact.byteSize a.toNat := by rw [countBits_eq]; rfl
  have bytes : Compact.byteSize a.toNat ≤ 32 := Compact.byteSize_le a.isLt
  have mantissa : (if Compact.byteSize a.toNat ≤ 3 then
      (getLow64 a <<< UInt64.ofNat (8 * (3 - Compact.byteSize a.toNat))).toUInt32
    else (getLow64 (shiftRightAssign a (8 * (Compact.byteSize a.toNat - 3)))).toUInt32).toNat =
      Compact.leading a.toNat := by
    have small := Compact.leading_lt a.toNat
    unfold Compact.leading at small ⊢
    split_ifs at small ⊢ with short
    · have low := Nat.lt_of_lt_of_le (Compact.lt_pow_byteSize a.toNat)
        (Nat.pow_le_pow_right (by decide) short)
      rw [UInt64.toNat_toUInt32, UInt64.toNat_shiftLeft, toNat_getLow64, UInt64.toNat_ofNat',
        Nat.mod_eq_of_lt (a := a.toNat) (by omega),
        show 8 * (3 - Compact.byteSize a.toNat) % 2 ^ 64 % 64 = 8 * (3 - Compact.byteSize a.toNat)
          by omega, Nat.shiftLeft_eq, Nat.pow_mul, show (2 ^ 8 : ℕ) = 256 from rfl]
      omega
    · rw [UInt64.toNat_toUInt32, toNat_getLow64, shiftRightAssign_eq, BitVec.toNat_ushiftRight,
        Nat.shiftRight_eq_div_pow, Nat.pow_mul, show (2 ^ 8 : ℕ) = 256 from rfl,
        Nat.mod_mod_of_dvd _ (Nat.pow_dvd_pow 2 (by decide))]
      exact Nat.mod_eq_of_lt (Nat.lt_trans small (by decide))
  have most := Compact.leading_lt a.toNat
  simp only [getCompactWord, size, getCompact, Compact.assemble, Bool.false_and, Bool.false_eq_true,
    ↓reduceIte]
  rw [← mantissa] at most ⊢
  generalize (if Compact.byteSize a.toNat ≤ 3 then _ else _ : UInt32) = nCompact at most ⊢
  by_cases low : nCompact.toNat < 2 ^ 23
  · obtain ⟨room, word⟩ := Compact.assembled low (show Compact.byteSize a.toNat < 256 by omega)
    simp only [(Compact.sign_eq_zero_iff most).mpr low, ne_eq, not_true_eq_false, ↓reduceIte, room,
      if_neg (show ¬256 ≤ Compact.byteSize a.toNat by omega), word, low, or_zero]
  · have shifted : (nCompact >>> 8).toNat = nCompact.toNat / 256 := by
      exact Nat.shiftRight_eq_div_pow _ 8
    obtain ⟨room, word⟩ := @Compact.assembled (nCompact >>> 8) _ (by omega)
      (show Compact.byteSize a.toNat + 1 < 256 by omega)
    have sign := (Compact.sign_eq_zero_iff most).not.mpr low
    simp only [sign, ne_eq, not_false_eq_true, not_true_eq_false, ↓reduceIte, room,
      if_neg (show ¬256 ≤ Compact.byteSize a.toNat + 1 by omega), word, low, shifted,
      or_zero]

end UInt256

namespace Compact

theorem exponent_le_byteSize (n : ℕ) : exponent n ≤ byteSize n + 1 := by
  unfold exponent
  split_ifs <;> omega

theorem byteSize_kept (n : ℕ) : byteSize (kept n) = byteSize n := by
  rcases Nat.eq_zero_or_pos n with rfl | positive
  · rfl
  · have less := exponent_le_byteSize n
    have least : 256 ^ (byteSize n - 1) ≤ kept n :=
      le_kept (Nat.pow_dvd_pow 256 (by omega)) (pow_byteSize_le positive)
    have bits : 8 * (byteSize n - 1) < (kept n).size := by
      rw [Nat.lt_size, Nat.pow_mul]
      exact least
    have most := byteSize_mono (kept_le n)
    unfold byteSize at *
    omega

/-- **Rounding keeps the form.** -/
theorem form_kept (n : ℕ) : exponent (kept n) = exponent n ∧ mantissa (kept n) = mantissa n := by
  by_cases short : exponent n ≤ 3
  · have same : kept n = n := by
      rw [kept, Nat.sub_eq_zero_of_le short, Nat.pow_zero, Nat.div_one, Nat.mul_one]
    rw [same]
    exact ⟨rfl, rfl⟩
  · have bytes := byteSize_kept n
    have low : leading (kept n) < 2 ^ 23 ↔ leading n < 2 ^ 23 := by
      refine ⟨fun clear => ?_, fun clear =>
        Nat.lt_of_le_of_lt (leading_mono (kept_le n) bytes) clear⟩
      by_contra sign
      have more : exponent n = byteSize n + 1 := if_neg sign
      have high : 2 ^ 23 * 256 ^ (byteSize n - 3) ≤ n := by
        rw [← Nat.le_div_iff_mul_le (Nat.pow_pos (by decide))]
        unfold leading at sign
        split_ifs at sign with three
        · rw [show byteSize n - 3 = 3 - byteSize n by omega, show 3 - byteSize n = 0 by omega] at *
          omega
        · omega
      have multiple : 256 ^ (exponent n - 3) ∣ 2 ^ 23 * 256 ^ (byteSize n - 3) := by
        rw [more, show byteSize n + 1 - 3 = byteSize n - 3 + 1 by omega, Nat.pow_succ', Nat.mul_comm]
        exact ⟨2 ^ 15, by ring⟩
      have still := (Nat.le_div_iff_mul_le (Nat.pow_pos (by decide))).mpr (le_kept multiple high)
      unfold leading at clear
      rw [bytes] at clear
      split_ifs at clear with three
      · rw [show byteSize n - 3 = 0 by omega] at still
        rw [show 3 - byteSize n = 0 by omega] at clear
        omega
      · omega
    have same : exponent (kept n) = exponent n := by
      unfold exponent
      rw [bytes]
      simp only [low]
    refine ⟨same, ?_⟩
    rw [mantissa_eq, mantissa_eq, same, if_neg short, if_neg short, kept,
      Nat.mul_div_cancel _ (Nat.pow_pos (by decide))]

theorem sub_kept_lt (n : ℕ) : n - kept n < 256 ^ (exponent n - 3) := by
  have split := Nat.mod_add_div' n (256 ^ (exponent n - 3))
  unfold kept
  omega

end Compact

namespace UInt256

/-- **Compact targets.** The assertions of `GetCompact` hold, its word is read without a flag as
the number rounded down, by less than all but its two leading bytes, and that number has the same
word; greater numbers have no smaller words. -/
theorem compactTargets (x : UInt256) :
    ∃ nCompact, getCompactWord x false = some nCompact ∧
      compactFlags nCompact = (false, false) ∧
      (setCompact nCompact).toNat ≤ x.toNat ∧
      x.toNat - (setCompact nCompact).toNat < 2 ^ (8 * ((countBits x + 7) / 8 - 2)) ∧
      ((countBits x + 7) / 8 ≤ 2 → setCompact nCompact = x) ∧
      getCompactWord (setCompact nCompact) false = some nCompact ∧
      ∀ y, x < y → ∀ other ∈ getCompactWord y false, nCompact ≤ other := by
  have decoded := toNat_setCompact_getCompact x
  have size : (countBits x + 7) / 8 = Compact.byteSize x.toNat := by rw [countBits_eq]; rfl
  have error : x.toNat - Compact.kept x.toNat < 256 ^ (Compact.byteSize x.toNat - 2) :=
    Nat.lt_of_lt_of_le (Compact.sub_kept_lt x.toNat) (Nat.pow_le_pow_right (by decide)
      (by have := Compact.exponent_le_byteSize x.toNat; omega))
  refine ⟨_, getCompactWord_eq x, compactFlags_getCompact x, ?_, ?_, fun short => ?_, ?_, ?_⟩
  · rw [decoded]
    exact Compact.kept_le _
  · rwa [decoded, size, Nat.pow_mul]
  · rw [size] at short
    rw [Nat.sub_eq_zero_of_le short] at error
    have le := Compact.kept_le x.toNat
    exact BitVec.eq_of_toNat_eq (by rw [decoded]; omega)
  · obtain ⟨exponent, mantissa⟩ := Compact.form_kept x.toNat
    rw [getCompactWord_eq, getCompact_eq, decoded, exponent, mantissa, ← getCompact_eq]
  · intro y less other word
    rw [getCompactWord_eq] at word
    cases word
    have bound (z : UInt256) : getCompact z false < 2 ^ 32 := by
      have most : Compact.exponent z.toNat ≤ 33 := Compact.exponent_le z.isLt
      have digits := Compact.mantissa_lt z.toNat
      rw [getCompact_eq]
      omega
    rw [UInt32.le_iff_toNat_le, toNat_ofNat', toNat_ofNat', Nat.mod_eq_of_lt (bound x),
      Nat.mod_eq_of_lt (bound y)]
    exact getCompact_mono (BitVec.le_of_lt less)

end UInt256

end DogeCash
