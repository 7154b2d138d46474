import DogeCash.Foundation.Limbs
import DogeCash.Primitives.Compact

/-! # The arithmetic of `base_uint`

A `uint256` has eight limbs of 32 bits. `operator*=` comes in two forms: by a 32-bit word, with
one carry that runs through the limbs, and by another number, row by row. `operator/=` shifts
the divisor up until it is as long as the number, and subtracts it on its way back down. They
compute the product modulo `2 ^ 256` and the quotient. The sums, shifts and comparisons that the
division consists of are loops over the limbs themselves.
-/

namespace DogeCash

open List (mem_append mem_flatMap mem_ite_nil_right mem_range mem_singleton mem_singleton_self)
open BitVec (eq_of_toNat_eq toNat_add toNat_ofNat toNat_or toNat_shiftLeft toNat_udiv)
open Nat (mod_eq_of_lt mod_mod lt_size pow_le_pow_right size_le mod_lt testBit_mod_two_pow
  div_add_mod testBit_shiftRight testBit_shiftLeft)

namespace UInt256

/-- `pn`: the limbs, the lowest first. -/
def limbs (a : UInt256) : List ℕ := Limbs.ofNat (2 ^ 32) 8 a.toNat

def ofLimbs (pn : List ℕ) : UInt256 := BitVec.ofNat 256 (Nat.ofDigits (2 ^ 32) pn)

/-- `operator*=(uint32_t)` -/
def mulWord (a : UInt256) (b32 : UInt32) : UInt256 :=
  ofLimbs (Limbs.scale (2 ^ 32) b32.toNat 0 a.limbs)

/-- `operator*=(const base_uint&)`; the product starts at zero. -/
def mulAssign (a b : UInt256) : UInt256 :=
  ofLimbs (Limbs.addProduct (2 ^ 32) b.limbs a.limbs (limbs 0))

def bits (a : UInt256) : ℕ := a.toNat.size

/-- The loop of `operator/=`, from one above the shift on. -/
def divLoop : ℕ → UInt256 → UInt256 → UInt256 → UInt256
  | 0, _, _, quotient => quotient
  | shift + 1, num, div, quotient =>
    if div ≤ num then divLoop shift (num - div) (div >>> 1) (quotient ||| (1 : UInt256) <<< shift)
    else divLoop shift num (div >>> 1) quotient

/-- `operator/=(const base_uint&)`, which throws where the divisor is zero. -/
def divAssign (num div : UInt256) : Option UInt256 :=
  if div.bits = 0 then none
  else if num.bits < div.bits then some 0
  else
    let shift := num.bits - div.bits
    some (divLoop (shift + 1) num (div <<< shift) 0)

theorem proper_limbs (a : UInt256) : Limbs.Proper (2 ^ 32) a.limbs :=
  Limbs.proper_ofNat (Nat.two_pow_pos 32) 8 a.toNat

theorem length_limbs (a : UInt256) : a.limbs.length = 8 := Limbs.length_ofNat 8 a.toNat

theorem ofDigits_limbs (a : UInt256) : Nat.ofDigits (2 ^ 32) a.limbs = a.toNat := by
  rw [limbs, Limbs.ofDigits_ofNat, ← Nat.pow_mul]
  exact mod_eq_of_lt a.isLt

theorem toNat_mulWord (a : UInt256) (b32 : UInt32) :
    (a.mulWord b32).toNat = a.toNat * b32.toNat % 2 ^ 256 := by
  rw [mulWord, ofLimbs, Limbs.ofDigits_scale b32.toNat_lt (Nat.two_pow_pos 32) a.proper_limbs,
    length_limbs, ofDigits_limbs, Nat.zero_add, ← Nat.pow_mul, toNat_ofNat, mod_mod,
    Nat.mul_comm]

theorem mulAssign_eq (a b : UInt256) : a.mulAssign b = a * b := by
  apply eq_of_toNat_eq
  have covers : (limbs 0).length ≤ b.limbs.length := by rw [length_limbs, length_limbs]
  rw [mulAssign, ofLimbs, Limbs.ofDigits_addProduct (by decide) b.proper_limbs a.proper_limbs
    (proper_limbs 0) covers, length_limbs, ofDigits_limbs, ofDigits_limbs, ofDigits_limbs,
    ← Nat.pow_mul, toNat_ofNat, mod_mod, BitVec.toNat_mul]
  simp

theorem toNat_setBit {quotient : UInt256} {shift : ℕ} (fits : shift < 256)
    (free : 2 ^ (shift + 1) ∣ quotient.toNat) :
    (quotient ||| (1 : UInt256) <<< shift).toNat = quotient.toNat + 2 ^ shift := by
  obtain ⟨above, set⟩ := free
  have small : 2 ^ shift < 2 ^ 256 := Nat.pow_lt_pow_right (by decide) fits
  rw [toNat_or, toNat_shiftLeft, set, Nat.shiftLeft_eq]
  rw [show (1 : UInt256).toNat = 1 from rfl, Nat.one_mul, mod_eq_of_lt small,
    Nat.two_pow_add_eq_or_of_lt (Nat.pow_lt_pow_succ (by decide))]

theorem toNat_divLoop {D : ℕ} (positive : 0 < D) {steps : ℕ} {num div quotient : UInt256}
    (fits : steps ≤ 256) (aligned : ∀ shift, steps = shift + 1 → div.toNat = D * 2 ^ shift)
    (below : num.toNat < D * 2 ^ steps) (free : 2 ^ steps ∣ quotient.toNat) :
    (divLoop steps num div quotient).toNat = quotient.toNat + num.toNat / D := by
  induction steps generalizing num div quotient with
  | zero =>
    rw [Nat.pow_zero, Nat.mul_one] at below
    rw [divLoop, Nat.div_eq_of_lt below, Nat.add_zero]
  | succ shift ih =>
    have here := aligned shift rfl
    have next (s : ℕ) (same : shift = s + 1) : (div >>> 1).toNat = D * 2 ^ s := by
      rw [BitVec.toNat_ushiftRight, here, same, Nat.shiftRight_eq_div_pow, Nat.pow_one,
        Nat.pow_succ, ← Nat.mul_assoc, Nat.mul_div_cancel _ (by decide)]
    have still : 2 ^ shift ∣ quotient.toNat :=
      Nat.dvd_trans (Nat.pow_dvd_pow 2 (Nat.le_succ shift)) free
    rw [Nat.pow_succ, ← Nat.mul_assoc] at below
    rw [divLoop]
    by_cases le : div ≤ num
    · have order : D * 2 ^ shift ≤ num.toNat := by
        rw [← here]
        exact BitVec.le_def.mp le
      have taken : (num - div).toNat = num.toNat - D * 2 ^ shift := by
        rw [BitVec.toNat_sub_of_le le, here]
      have quotientSet := toNat_setBit (Nat.lt_of_succ_le fits) free
      rw [if_pos le, ih (by omega) next (by rw [taken]; omega)
        (by rw [quotientSet]; exact Nat.dvd_add still (Nat.dvd_refl _)),
        quotientSet, taken, Nat.add_assoc, Nat.sub_mul_div_of_le _ _ _ order]
      have some : 2 ^ shift ≤ num.toNat / D := (Nat.le_div_iff_mul_le positive).mpr
        (by rwa [Nat.mul_comm])
      omega
    · have order : num.toNat < D * 2 ^ shift := by
        rw [← here]
        exact BitVec.lt_def.mp (BitVec.not_le.mp le)
      rw [if_neg le, ih (by omega) next order still]

variable {a : UInt256} {k shift i bit : ℕ}

theorem bits_eq_zero : a.bits = 0 ↔ a = 0 := by
  rw [bits, Nat.size_eq_zero]
  exact ⟨fun zero => eq_of_toNat_eq zero, fun zero => by rw [zero]; rfl⟩

/-- **The quotient**, where the divisor is not zero. -/
theorem divAssign_eq {num div : UInt256} (nonzero : div ≠ 0) :
    num.divAssign div = some (num / div) := by
  have longer : div.bits ≠ 0 := fun zero => nonzero (bits_eq_zero.mp zero)
  have positive : 0 < div.toNat := by
    by_contra zero
    exact nonzero (eq_of_toNat_eq (Nat.eq_zero_of_not_pos zero))
  have numBelow : num.toNat < 2 ^ num.bits := Nat.lt_size_self num.toNat
  have divAbove : 2 ^ (div.bits - 1) ≤ div.toNat := lt_size.mp (by unfold bits at *; omega)
  rw [divAssign, if_neg longer]
  split
  · rename_i shorter
    congr 1
    apply eq_of_toNat_eq
    have less : num.toNat < div.toNat :=
      Nat.lt_of_lt_of_le numBelow (Nat.le_trans (pow_le_pow_right (by decide) (by omega))
        divAbove)
    rw [toNat_udiv, Nat.div_eq_of_lt less]
    rfl
  · rename_i notShorter
    have numBits : num.bits ≤ 256 := size_le.mpr num.isLt
    set shift := num.bits - div.bits
    have divBelow : div.toNat < 2 ^ div.bits := Nat.lt_size_self div.toNat
    have shifted : (div <<< shift).toNat = div.toNat * 2 ^ shift := by
      rw [toNat_shiftLeft, Nat.shiftLeft_eq]
      apply mod_eq_of_lt
      calc div.toNat * 2 ^ shift
          < 2 ^ div.bits * 2 ^ shift := Nat.mul_lt_mul_of_pos_right divBelow (Nat.two_pow_pos _)
        _ = 2 ^ num.bits := by rw [← Nat.pow_add]; congr 1; omega
        _ ≤ 2 ^ 256 := pow_le_pow_right (by decide) numBits
    have below : num.toNat < div.toNat * 2 ^ (shift + 1) := by
      calc num.toNat < 2 ^ num.bits := numBelow
        _ = 2 ^ (div.bits - 1) * 2 ^ (shift + 1) := by rw [← Nat.pow_add]; congr 1; omega
        _ ≤ div.toNat * 2 ^ (shift + 1) := Nat.mul_le_mul_right _ divAbove
    show some (divLoop (shift + 1) num (div <<< shift) 0) = some (num / div)
    congr 1
    apply eq_of_toNat_eq
    rw [toNat_divLoop positive (by omega)
      (fun s same => by rw [shifted, Nat.succ.inj same]) below (Nat.dvd_zero _),
      toNat_udiv]
    exact Nat.zero_add _

/-! ## Limb by limb -/

/-- `pn[i]` -/
def limb (a : UInt256) (i : ℕ) : ℕ := a.limbs.getD i 0

/-- `operator+=`: a row with the factor one. -/
def addAssign (a b : UInt256) : UInt256 := ofLimbs (Limbs.addScaled (2 ^ 32) 1 0 a.limbs b.limbs)

/-- The prefix `operator++` -/
def increment (a : UInt256) : UInt256 := ofLimbs (Limbs.increment (2 ^ 32) a.limbs)

/-- `operator~` -/
def complement (a : UInt256) : UInt256 := ofLimbs (Limbs.complement (2 ^ 32) a.limbs)

/-- `operator-` -/
def negate (a : UInt256) : UInt256 := increment (complement a)

/-- `operator-=` -/
def subAssign (a b : UInt256) : UInt256 := addAssign a (negate b)

/-- The words that `operator<<=` writes, with the indices of their limbs. -/
def leftWords (a : UInt256) (k shift : ℕ) : List (ℕ × ℕ) :=
  (List.range 8).flatMap fun i =>
    (if i + k + 1 < 8 ∧ shift ≠ 0 then [(i + k + 1, a.limb i >>> (32 - shift))] else []) ++
      (if i + k < 8 then [(i + k, (a.limb i <<< shift) % 2 ^ 32)] else [])

/-- `operator<<=` -/
def shiftLeftAssign (a : UInt256) (shift : ℕ) : UInt256 :=
  ofLimbs (Limbs.orInto (limbs 0) (a.leftWords (shift / 32) (shift % 32)))

/-- The words that `operator>>=` writes, with the indices of their limbs. -/
def rightWords (a : UInt256) (k shift : ℕ) : List (ℕ × ℕ) :=
  (List.range 8).flatMap fun i =>
    (if k + 1 ≤ i ∧ shift ≠ 0 then [(i - k - 1, (a.limb i <<< (32 - shift)) % 2 ^ 32)] else []) ++
      (if k ≤ i then [(i - k, a.limb i >>> shift)] else [])

/-- `operator>>=` -/
def shiftRightAssign (a : UInt256) (shift : ℕ) : UInt256 :=
  ofLimbs (Limbs.orInto (limbs 0) (a.rightWords (shift / 32) (shift % 32)))

/-- The loop of `CompareTo` over the limbs below an index. -/
def compareBelow (a b : UInt256) : ℕ → Int
  | 0 => 0
  | i + 1 =>
    if a.limb i < b.limb i then -1
    else if b.limb i < a.limb i then 1
    else compareBelow a b i

def compareTo (a b : UInt256) : Int := compareBelow a b 8

/-- The loop of `base_uint::bits` over the bits of a limb, up to an index. -/
def wordBits (word : ℕ) : ℕ → ℕ
  | 0 => 1
  | bits + 1 => if word.testBit (bits + 1) then bits + 2 else wordBits word bits

/-- The loop of `base_uint::bits` over the limbs below an index. -/
def bitsBelow (a : UInt256) : ℕ → ℕ
  | 0 => 0
  | pos + 1 => if a.limb pos ≠ 0 then 32 * pos + wordBits (a.limb pos) 31 else bitsBelow a pos

/-- `base_uint::bits`, limb by limb. -/
def countBits (a : UInt256) : ℕ := bitsBelow a 8

/-- Set a bit of the result of `operator/=`. -/
def setBit (quotient : UInt256) (shift : ℕ) : UInt256 :=
  ofLimbs (Limbs.orInto quotient.limbs [(shift / 32, 1 <<< (shift % 32))])

/-- The loop of `operator/=`, limb by limb. -/
def divideLoop : ℕ → UInt256 → UInt256 → UInt256 → UInt256
  | 0, _, _, quotient => quotient
  | shift + 1, num, div, quotient =>
    if 0 ≤ compareTo num div then
      divideLoop shift (subAssign num div) (shiftRightAssign div 1) (setBit quotient shift)
    else divideLoop shift num (shiftRightAssign div 1) quotient

/-- `operator/=`, limb by limb. -/
def divide (num div : UInt256) : Option UInt256 :=
  if countBits div = 0 then none
  else if countBits num < countBits div then some 0
  else
    let shift := countBits num - countBits div
    some (divideLoop (shift + 1) num (shiftLeftAssign div shift) 0)

theorem addAssign_eq (a b : UInt256) : addAssign a b = a + b := by
  apply eq_of_toNat_eq
  rw [addAssign, ofLimbs, Limbs.ofDigits_addScaled (by decide) (by decide) a.proper_limbs
    b.proper_limbs (by rw [length_limbs, length_limbs]), ofDigits_limbs, ofDigits_limbs,
    length_limbs, ← Nat.pow_mul, Nat.zero_add, Nat.one_mul, toNat_ofNat, mod_mod,
    toNat_add]

theorem toNat_complement (a : UInt256) : (complement a).toNat = 2 ^ 256 - 1 - a.toNat := by
  have whole := Limbs.ofDigits_complement a.proper_limbs
  rw [ofDigits_limbs, length_limbs, ← Nat.pow_mul] at whole
  rw [complement, ofLimbs, toNat_ofNat, mod_eq_of_lt (by omega)]
  omega

theorem complement_eq (a : UInt256) : complement a = ~~~a := by
  apply eq_of_toNat_eq
  rw [toNat_complement, BitVec.toNat_not]

theorem increment_eq (a : UInt256) : increment a = a + 1 := by
  apply eq_of_toNat_eq
  rw [increment, ofLimbs, Limbs.ofDigits_increment (by decide) a.proper_limbs, ofDigits_limbs,
    length_limbs, ← Nat.pow_mul, toNat_ofNat, mod_mod, toNat_add]
  rfl

theorem subAssign_eq (a b : UInt256) : subAssign a b = a - b := by
  rw [subAssign, addAssign_eq, negate, increment_eq, complement_eq, BitVec.sub_eq_add_neg,
    BitVec.neg_eq_not_add]
  rfl

theorem limb_eq (a : UInt256) (i : ℕ) : a.limb i = a.toNat / 2 ^ (32 * i) % 2 ^ 32 := by
  rw [limb, limbs, Limbs.getD_ofNat, ← Nat.pow_mul]
  split_ifs with inside
  · rfl
  · have small : a.toNat < 2 ^ (32 * i) :=
      Nat.lt_of_lt_of_le a.isLt (pow_le_pow_right Nat.two_pos (by omega))
    rw [Nat.div_eq_of_lt small, Nat.zero_mod]

theorem limb_lt (a : UInt256) (i : ℕ) : a.limb i < 2 ^ 32 := by
  rw [limb_eq]
  exact mod_lt _ (by decide)

theorem testBit_limb (a : UInt256) (i bit : ℕ) :
    (a.limb i).testBit bit = (decide (bit < 32) && a.toNat.testBit (32 * i + bit)) := by
  rw [limb_eq, testBit_mod_two_pow, Nat.testBit_div_two_pow, Nat.add_comm]

theorem testBit_orInto {writes : List (ℕ × ℕ)} (words : ∀ write ∈ writes, write.2 < 2 ^ 32)
    (bit : ℕ) :
    (ofLimbs (Limbs.orInto a.limbs writes)).toNat.testBit bit = true ↔ bit < 256 ∧
      (a.toNat.testBit bit = true ∨
        ∃ write ∈ writes, write.1 = bit / 32 ∧ write.2.testBit (bit % 32) = true) := by
  rw [ofLimbs, toNat_ofNat, testBit_mod_two_pow, Bool.and_eq_true, decide_eq_true_iff]
  refine and_congr_right fun inside => ?_
  rw [Limbs.testBit_ofDigits (by decide) (Limbs.proper_orInto a.proper_limbs words),
    Limbs.testBit_orInto writes (by rw [length_limbs]; omega), ← limb, testBit_limb,
    decide_eq_true (mod_lt bit (by decide)), Bool.true_and, div_add_mod]

theorem shiftRight_lt (a : UInt256) (i shift : ℕ) : a.limb i >>> shift < 2 ^ 32 :=
  Nat.lt_of_le_of_lt (Nat.shiftRight_le _ _) (a.limb_lt i)

theorem exists_leftWords (a : UInt256) (fits : shift < 32) (inside : i < 8) (small : bit < 32) :
    (∃ write ∈ a.leftWords k shift, write.1 = i ∧ write.2.testBit bit = true) ↔
      32 * k + shift ≤ 32 * i + bit ∧ a.toNat.testBit (32 * i + bit - (32 * k + shift)) = true := by
  constructor
  · rintro ⟨write, mem, rfl, set⟩
    obtain ⟨j, -, mem⟩ := mem_flatMap.mp mem
    rcases mem_append.mp mem with high | low
    · obtain ⟨⟨-, -⟩, same⟩ := mem_ite_nil_right.mp high
      obtain rfl := mem_singleton.mp same
      rw [testBit_shiftRight, testBit_limb, Bool.and_eq_true, decide_eq_true_iff] at set
      obtain ⟨-, set⟩ := set
      refine ⟨by omega, ?_⟩
      rwa [show 32 * (j + k + 1) + bit - (32 * k + shift) = 32 * j + (32 - shift + bit) by omega]
    · obtain ⟨-, same⟩ := mem_ite_nil_right.mp low
      obtain rfl := mem_singleton.mp same
      simp only [testBit_mod_two_pow, testBit_shiftLeft, testBit_limb, Bool.and_eq_true,
        decide_eq_true_iff] at set
      obtain ⟨-, above, -, set⟩ := set
      refine ⟨by omega, ?_⟩
      rwa [show 32 * (j + k) + bit - (32 * k + shift) = 32 * j + (bit - shift) by omega]
  · rintro ⟨enough, set⟩
    by_cases low : shift ≤ bit
    · refine ⟨(i, (a.limb (i - k) <<< shift) % 2 ^ 32), mem_flatMap.mpr ⟨i - k,
        mem_range.mpr (by omega), List.mem_append_right _ ?_⟩, rfl, ?_⟩
      · have back : i - k + k = i := by omega
        rw [back, if_pos inside]
        exact mem_singleton_self _
      · simp only [testBit_mod_two_pow, testBit_shiftLeft, testBit_limb, Bool.and_eq_true,
          decide_eq_true_iff]
        refine ⟨small, low, by omega, ?_⟩
        rwa [show 32 * (i - k) + (bit - shift) = 32 * i + bit - (32 * k + shift) by omega]
    · refine ⟨(i, a.limb (i - k - 1) >>> (32 - shift)), mem_flatMap.mpr ⟨i - k - 1,
        mem_range.mpr (by omega), List.mem_append_left _ ?_⟩, rfl, ?_⟩
      · have back : i - k - 1 + k + 1 = i := by omega
        rw [back, if_pos ⟨inside, by omega⟩]
        exact mem_singleton_self _
      · rw [testBit_shiftRight, testBit_limb, Bool.and_eq_true, decide_eq_true_iff]
        refine ⟨by omega, ?_⟩
        rwa [show 32 * (i - k - 1) + (32 - shift + bit) = 32 * i + bit - (32 * k + shift) by omega]

theorem exists_rightWords (a : UInt256) (fits : shift < 32) (inside : i < 8) (small : bit < 32) :
    (∃ write ∈ a.rightWords k shift, write.1 = i ∧ write.2.testBit bit = true) ↔
      a.toNat.testBit (32 * k + shift + (32 * i + bit)) = true := by
  constructor
  · rintro ⟨write, mem, rfl, set⟩
    obtain ⟨j, -, mem⟩ := mem_flatMap.mp mem
    rcases mem_append.mp mem with high | low
    · obtain ⟨⟨above, -⟩, same⟩ := mem_ite_nil_right.mp high
      obtain rfl := mem_singleton.mp same
      simp only [testBit_mod_two_pow, testBit_shiftLeft, testBit_limb, Bool.and_eq_true,
        decide_eq_true_iff] at set
      obtain ⟨-, enough, -, set⟩ := set
      rwa [show 32 * k + shift + (32 * (j - k - 1) + bit) = 32 * j + (bit - (32 - shift)) by omega]
    · obtain ⟨above, same⟩ := mem_ite_nil_right.mp low
      obtain rfl := mem_singleton.mp same
      rw [testBit_shiftRight, testBit_limb, Bool.and_eq_true, decide_eq_true_iff] at set
      obtain ⟨-, set⟩ := set
      rwa [show 32 * k + shift + (32 * (j - k) + bit) = 32 * j + (shift + bit) by omega]
  · intro set
    have within : 32 * k + shift + (32 * i + bit) < 256 := by
      by_contra beyond
      have clear := Nat.testBit_lt_two_pow (Nat.lt_of_lt_of_le a.isLt
        (pow_le_pow_right Nat.two_pos (Nat.le_of_not_lt beyond)))
      rw [clear] at set
      cases set
    by_cases low : shift + bit < 32
    · refine ⟨(i, a.limb (i + k) >>> shift), mem_flatMap.mpr ⟨i + k,
        mem_range.mpr (by omega), List.mem_append_right _ ?_⟩, rfl, ?_⟩
      · rw [if_pos (Nat.le_add_left k i), Nat.add_sub_cancel]
        exact mem_singleton_self _
      · rw [testBit_shiftRight, testBit_limb, Bool.and_eq_true, decide_eq_true_iff]
        refine ⟨low, ?_⟩
        rwa [show 32 * (i + k) + (shift + bit) = 32 * k + shift + (32 * i + bit) by omega]
    · refine ⟨(i, (a.limb (i + k + 1) <<< (32 - shift)) % 2 ^ 32), mem_flatMap.mpr ⟨i + k + 1,
        mem_range.mpr (by omega), List.mem_append_left _ ?_⟩, rfl, ?_⟩
      · rw [if_pos (by omega), show i + k + 1 - k - 1 = i by omega]
        exact mem_singleton_self _
      · simp only [testBit_mod_two_pow, testBit_shiftLeft, testBit_limb, Bool.and_eq_true,
          decide_eq_true_iff]
        refine ⟨small, by omega, by omega, ?_⟩
        rwa [show 32 * (i + k + 1) + (bit - (32 - shift)) = 32 * k + shift + (32 * i + bit) by omega]

theorem shiftLeftAssign_eq (a : UInt256) (shift : ℕ) : shiftLeftAssign a shift = a <<< shift := by
  have words : ∀ write ∈ a.leftWords (shift / 32) (shift % 32), write.2 < 2 ^ 32 := by
    intro write mem
    obtain ⟨i, -, mem⟩ := mem_flatMap.mp mem
    rcases mem_append.mp mem with high | low
    · obtain ⟨-, same⟩ := mem_ite_nil_right.mp high
      exact mem_singleton.mp same ▸ a.shiftRight_lt i _
    · obtain ⟨-, same⟩ := mem_ite_nil_right.mp low
      exact mem_singleton.mp same ▸ mod_lt _ (by decide)
  apply eq_of_toNat_eq
  apply Nat.eq_of_testBit_eq
  intro bit
  rw [Bool.eq_iff_iff, shiftLeftAssign, testBit_orInto words, toNat_shiftLeft,
    testBit_mod_two_pow, testBit_shiftLeft, Bool.and_eq_true, Bool.and_eq_true,
    decide_eq_true_iff, decide_eq_true_iff]
  refine and_congr_right fun inside => ?_
  rw [exists_leftWords a (mod_lt _ (by decide)) (by omega) (mod_lt _ (by decide)),
    div_add_mod, div_add_mod]
  exact or_iff_right (by simp)

theorem shiftRightAssign_eq (a : UInt256) (shift : ℕ) : shiftRightAssign a shift = a >>> shift := by
  have words : ∀ write ∈ a.rightWords (shift / 32) (shift % 32), write.2 < 2 ^ 32 := by
    intro write mem
    obtain ⟨i, -, mem⟩ := mem_flatMap.mp mem
    rcases mem_append.mp mem with high | low
    · obtain ⟨-, same⟩ := mem_ite_nil_right.mp high
      exact mem_singleton.mp same ▸ mod_lt _ (by decide)
    · obtain ⟨-, same⟩ := mem_ite_nil_right.mp low
      exact mem_singleton.mp same ▸ a.shiftRight_lt i _
  apply eq_of_toNat_eq
  apply Nat.eq_of_testBit_eq
  intro bit
  rw [Bool.eq_iff_iff, shiftRightAssign, testBit_orInto words, BitVec.toNat_ushiftRight,
    testBit_shiftRight]
  by_cases inside : bit < 256
  · rw [exists_rightWords a (mod_lt _ (by decide)) (by omega) (mod_lt _ (by decide)),
      div_add_mod, div_add_mod, and_iff_right inside]
    exact or_iff_right (by simp)
  · have small : a.toNat < 2 ^ (shift + bit) :=
      Nat.lt_of_lt_of_le a.isLt (pow_le_pow_right Nat.two_pos (by omega))
    rw [Nat.testBit_lt_two_pow small]
    simp [inside]

theorem setBit_eq (quotient : UInt256) (shift : ℕ) :
    setBit quotient shift = quotient ||| (1 : UInt256) <<< shift := by
  have words : ∀ write ∈ [(shift / 32, 1 <<< (shift % 32))], write.2 < 2 ^ 32 := by
    intro write mem
    cases mem_singleton.mp mem
    rw [Nat.one_shiftLeft]
    exact Nat.pow_lt_pow_right (by decide) (mod_lt _ (by decide))
  apply eq_of_toNat_eq
  apply Nat.eq_of_testBit_eq
  intro bit
  have here : (∃ write ∈ [(shift / 32, 1 <<< (shift % 32))],
      write.1 = bit / 32 ∧ write.2.testBit (bit % 32) = true) ↔ shift = bit := by
    simp only [mem_singleton, exists_eq_left, Nat.one_shiftLeft, Nat.testBit_two_pow,
      decide_eq_true_iff]
    omega
  rw [Bool.eq_iff_iff, setBit, testBit_orInto words, here, toNat_or, Nat.testBit_or,
    toNat_shiftLeft, testBit_mod_two_pow, Bool.or_eq_true, Bool.and_eq_true,
    decide_eq_true_iff, show (1 : UInt256).toNat = 1 from rfl, Nat.one_shiftLeft,
    Nat.testBit_two_pow, decide_eq_true_iff, and_or_left]
  refine or_congr_left (and_iff_right_of_imp fun set => ?_)
  by_contra beyond
  rw [Nat.testBit_lt_two_pow (Nat.lt_of_lt_of_le quotient.isLt
    (pow_le_pow_right Nat.two_pos (Nat.le_of_not_lt beyond)))] at set
  cases set

theorem mod_pow_succ (a : UInt256) (i : ℕ) :
    a.toNat % 2 ^ (32 * (i + 1)) = a.toNat % 2 ^ (32 * i) + 2 ^ (32 * i) * a.limb i := by
  rw [limb_eq, Nat.mul_add_one, Nat.pow_add, Nat.mod_mul]

theorem compareTo_eq (a b : UInt256) :
    compareTo a b = if a < b then -1 else if b < a then 1 else 0 := by
  have below (i : ℕ) : compareBelow a b i =
      if a.toNat % 2 ^ (32 * i) < b.toNat % 2 ^ (32 * i) then -1
      else if b.toNat % 2 ^ (32 * i) < a.toNat % 2 ^ (32 * i) then 1 else 0 := by
    induction i with
    | zero => simp [compareBelow, Nat.mod_one]
    | succ i ih =>
      rw [compareBelow, ih, mod_pow_succ, mod_pow_succ]
      rcases Nat.lt_trichotomy (a.limb i) (b.limb i) with less | same | more
      · have step := Nat.mul_le_mul_left (2 ^ (32 * i)) (Nat.succ_le_of_lt less)
        rw [Nat.mul_succ] at step
        rw [if_pos less, if_pos (by omega)]
      · rw [same, if_neg (Nat.lt_irrefl _), if_neg (Nat.lt_irrefl _)]
        simp
      · have step := Nat.mul_le_mul_left (2 ^ (32 * i)) (Nat.succ_le_of_lt more)
        rw [Nat.mul_succ] at step
        rw [if_neg (by omega), if_pos more, if_neg (by omega), if_pos (by omega)]
  rw [compareTo, below, mod_eq_of_lt a.isLt, mod_eq_of_lt b.isLt]
  rfl

theorem wordBits_eq {word bits : ℕ} (positive : 0 < word) (small : word < 2 ^ (bits + 1)) :
    wordBits word bits = word.size := by
  induction bits with
  | zero =>
    obtain rfl : word = 1 := by omega
    rfl
  | succ bits ih =>
    rw [wordBits]
    split_ifs with set
    · have least : 2 ^ (bits + 1) ≤ word := Nat.ge_two_pow_of_testBit set
      exact Nat.le_antisymm (lt_size.mpr least) (size_le.mpr small)
    · refine ih (Nat.lt_of_not_le fun least => set ?_)
      rw [Nat.testBit_eq_decide_div_mod_eq, decide_eq_true_iff,
        Nat.div_eq_of_lt_le (k := 1) (by omega) (by omega)]

theorem countBits_eq (a : UInt256) : countBits a = a.bits := by
  have below (i : ℕ) : bitsBelow a i = (a.toNat % 2 ^ (32 * i)).size := by
    induction i with
    | zero => simp [bitsBelow, Nat.mod_one]
    | succ i ih =>
      rw [bitsBelow, mod_pow_succ]
      by_cases zero : a.limb i = 0
      · rw [if_neg (not_not.mpr zero), ih, zero, Nat.mul_zero, Nat.add_zero]
      · have positive := Nat.pos_of_ne_zero zero
        have size : 0 < (a.limb i).size := Nat.size_pos.mpr positive
        have above : 2 ^ (32 * i) * (a.limb i + 1) ≤ 2 ^ (32 * i + (a.limb i).size) := by
          rw [Nat.pow_add]
          exact Nat.mul_le_mul_left _ (Nat.lt_size_self _)
        have least : 2 ^ (32 * i + ((a.limb i).size - 1)) ≤ 2 ^ (32 * i) * a.limb i := by
          rw [Nat.pow_add]
          exact Nat.mul_le_mul_left _ (lt_size.mp (by omega))
        rw [Nat.mul_add_one] at above
        have most : (a.toNat % 2 ^ (32 * i) + 2 ^ (32 * i) * a.limb i).size ≤
            32 * i + (a.limb i).size := size_le.mpr (by omega)
        have more : 32 * i + ((a.limb i).size - 1) <
            (a.toNat % 2 ^ (32 * i) + 2 ^ (32 * i) * a.limb i).size :=
          lt_size.mpr (by omega)
        rw [if_pos zero, wordBits_eq positive (a.limb_lt i)]
        omega
  rw [countBits, below, mod_eq_of_lt a.isLt, bits]

theorem divideLoop_eq (steps : ℕ) (num div quotient : UInt256) :
    divideLoop steps num div quotient = divLoop steps num div quotient := by
  induction steps generalizing num div quotient with
  | zero => rfl
  | succ shift ih =>
    have order : 0 ≤ compareTo num div ↔ div ≤ num := by
      rw [compareTo_eq, ← BitVec.not_lt]
      split_ifs with less more <;> simp [less]
    simp only [divideLoop, divLoop, order, ih, subAssign_eq, shiftRightAssign_eq, setBit_eq]

theorem divide_eq (num div : UInt256) : divide num div = num.divAssign div := by
  simp only [divide, divAssign, countBits_eq, divideLoop_eq, shiftLeftAssign_eq]

end UInt256

end DogeCash
