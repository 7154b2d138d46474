import Mathlib.Data.Nat.Bitwise
import Mathlib.Data.Nat.Size
import DogeCash.Primitives.Script

/-! # The compact form of a 256-bit number

`uint256::GetCompact` keeps the number of bytes and the leading 23 bits of a number. It
is monotone, so numbers with different compact forms are ordered as these are; numbers
that agree in their leading bits have the same. `uint256::SetCompact` reads it: what it decodes
to is the number without the bits behind the leading ones.
-/

namespace DogeCash

open Nat (mod_eq_of_lt)

namespace Compact

def byteSize (n : Nat) : Nat := (n.size + 7) / 8

def leading (n : Nat) : Nat :=
  if byteSize n ≤ 3 then n * 256 ^ (3 - byteSize n) else n / 256 ^ (byteSize n - 3)

/-- A size and a mantissa in one word. The bit 0x00800000 denotes the sign: if it is
already set, the mantissa is divided by 256 and the size increased. -/
def assemble (nSize nCompact : Nat) : Nat :=
  if nCompact < 2 ^ 23 then nSize * 2 ^ 24 + nCompact
  else (nSize + 1) * 2 ^ 24 + nCompact / 256

theorem lt_pow_byteSize (n : Nat) : n < 256 ^ byteSize n := by
  have bound : n.size ≤ 8 * byteSize n := by
    unfold byteSize
    omega
  calc n < 2 ^ n.size := Nat.lt_size_self n
    _ ≤ 2 ^ (8 * byteSize n) := Nat.pow_le_pow_right (by decide) bound
    _ = 256 ^ byteSize n := by rw [Nat.pow_mul]

variable {n : Nat} {a b : Nat}

theorem pow_byteSize_le (positive : 0 < n) : 256 ^ (byteSize n - 1) ≤ n := by
  have bits : 0 < n.size := Nat.size_pos.mpr positive
  have bound : 8 * (byteSize n - 1) < n.size := by
    unfold byteSize
    omega
  calc 256 ^ (byteSize n - 1) = 2 ^ (8 * (byteSize n - 1)) := by rw [Nat.pow_mul]
    _ ≤ n := Nat.lt_size.mp bound

theorem byteSize_mono (le : a ≤ b) : byteSize a ≤ byteSize b := by
  have bits := Nat.size_le_size le
  unfold byteSize
  omega

theorem byteSize_pos (positive : 0 < n) : 0 < byteSize n := by
  have bits : 0 < n.size := Nat.size_pos.mpr positive
  unfold byteSize
  omega

theorem leading_lt (n : Nat) : leading n < 2 ^ 24 := by
  have bound := lt_pow_byteSize n
  unfold leading
  split_ifs with short
  · calc n * 256 ^ (3 - byteSize n)
        < 256 ^ byteSize n * 256 ^ (3 - byteSize n) :=
          Nat.mul_lt_mul_of_pos_right bound (Nat.pow_pos (by decide))
      _ = 256 ^ 3 := by rw [← Nat.pow_add, Nat.add_sub_cancel' short]
      _ = 2 ^ 24 := by decide
  · have split : 256 ^ byteSize n = 2 ^ 24 * 256 ^ (byteSize n - 3) := by
      rw [show (2 : Nat) ^ 24 = 256 ^ 3 by decide, ← Nat.pow_add]
      congr 1
      omega
    exact Nat.div_lt_of_lt_mul (by rw [Nat.mul_comm, ← split]; exact bound)

theorem le_leading (positive : 0 < n) : 2 ^ 16 ≤ leading n := by
  have bound := pow_byteSize_le positive
  have size := byteSize_pos positive
  unfold leading
  split_ifs with short
  · calc 2 ^ 16 = 256 ^ (byteSize n - 1) * 256 ^ (3 - byteSize n) := by
          rw [← Nat.pow_add, show byteSize n - 1 + (3 - byteSize n) = 2 by omega]
          decide
      _ ≤ n * 256 ^ (3 - byteSize n) := Nat.mul_le_mul_right _ bound
  · have split : 256 ^ (byteSize n - 1) = 2 ^ 16 * 256 ^ (byteSize n - 3) := by
      rw [show (2 : Nat) ^ 16 = 256 ^ 2 by decide, ← Nat.pow_add]
      congr 1
      omega
    rw [Nat.le_div_iff_mul_le (Nat.pow_pos (by decide)), ← split]
    exact bound

theorem leading_mono (le : a ≤ b) (same : byteSize a = byteSize b) : leading a ≤ leading b := by
  unfold leading
  rw [same]
  split_ifs
  · exact Nat.mul_le_mul_right _ le
  · exact Nat.div_le_div_right le

theorem assemble_mono (le : a ≤ b) :
    assemble (byteSize a) (leading a) ≤ assemble (byteSize b) (leading b) := by
  rcases Nat.eq_zero_or_pos a with rfl | positive
  · exact Nat.zero_le _
  · have sizes := byteSize_mono le
    have fits := leading_lt a
    rcases Nat.eq_or_lt_of_le sizes with same | more
    · have mantissas := leading_mono le same
      unfold assemble
      split_ifs <;> omega
    · have low := le_leading (Nat.lt_of_lt_of_le positive le)
      unfold assemble
      split_ifs <;> omega

end Compact

def UInt256.getCompact (number : UInt256) (fNegative : Bool) : Nat :=
  let word := Compact.assemble (Compact.byteSize number.toNat) (Compact.leading number.toNat)
  if fNegative && word % 2 ^ 23 ≠ 0 then word + 2 ^ 23 else word

theorem UInt256.getCompact_mono {a b : UInt256} (le : a ≤ b) :
    UInt256.getCompact a false ≤ UInt256.getCompact b false := by
  exact Compact.assemble_mono le

theorem UInt256.getCompact_lt_iff {a b : UInt256}
    (distinct : UInt256.getCompact a false ≠ UInt256.getCompact b false) :
    UInt256.getCompact a false < UInt256.getCompact b false ↔ a < b := by
  constructor
  · intro less
    by_contra greater
    have back := UInt256.getCompact_mono (BitVec.not_lt.mp greater)
    omega
  · intro less
    have forward := UInt256.getCompact_mono (BitVec.le_of_lt less)
    omega

/-- `uint256::SetCompact`, without the flags it can report. -/
def UInt256.setCompact (nCompact : UInt32) : UInt256 :=
  let nSize := (nCompact >>> 24).toNat
  let nWord := (nCompact &&& 0x007fffff).toNat
  if nSize ≤ 3 then BitVec.ofNat 256 (nWord / 256 ^ (3 - nSize))
  else BitVec.ofNat 256 nWord <<< (8 * (nSize - 3))

/-- The flags that `uint256::SetCompact` reports: `pfNegative` and `pfOverflow`. -/
def UInt256.compactFlags (nCompact : UInt32) : Bool × Bool :=
  let nSize := (nCompact >>> 24).toNat
  let nWord := (nCompact &&& 0x007fffff).toNat
  let nWord := if nSize ≤ 3 then nWord / 256 ^ (3 - nSize) else nWord
  (nWord ≠ 0 ∧ nCompact &&& 0x00800000 ≠ 0,
    nWord ≠ 0 ∧ (34 < nSize ∨ (0xff < nWord ∧ 33 < nSize) ∨ (0xffff < nWord ∧ 32 < nSize)))

namespace Compact

def exponent (n : ℕ) : ℕ := if leading n < 2 ^ 23 then byteSize n else byteSize n + 1

def mantissa (n : ℕ) : ℕ := if leading n < 2 ^ 23 then leading n else leading n / 256

theorem assemble_eq (n : ℕ) :
    assemble (byteSize n) (leading n) = exponent n * 2 ^ 24 + mantissa n := by
  unfold assemble exponent mantissa
  split_ifs <;> rfl

theorem mantissa_lt (n : ℕ) : mantissa n < 2 ^ 23 := by
  have bound := leading_lt n
  unfold mantissa
  split_ifs <;> omega

variable {n : ℕ}

theorem le_mantissa (positive : 0 < n) : 2 ^ 15 ≤ mantissa n := by
  have bound := le_leading positive
  unfold mantissa
  split_ifs <;> omega

theorem mantissa_eq (n : ℕ) :
    mantissa n =
      if exponent n ≤ 3 then n * 256 ^ (3 - exponent n) else n / 256 ^ (exponent n - 3) := by
  unfold mantissa exponent
  by_cases low : leading n < 2 ^ 23
  · simp only [if_pos low]
    rfl
  · simp only [if_neg low]
    rcases Nat.lt_trichotomy (byteSize n) 3 with short | three | long
    · have more : 3 - byteSize n = (3 - (byteSize n + 1)) + 1 := by omega
      rw [leading, if_pos (Nat.le_of_lt short), if_pos (Nat.succ_le_of_lt short), more,
        Nat.pow_succ, ← Nat.mul_assoc, Nat.mul_div_cancel _ (by decide)]
    · rw [leading, three]
      simp
    · have more : byteSize n + 1 - 3 = (byteSize n - 3) + 1 := by omega
      rw [leading, if_neg (Nat.not_le.mpr long), if_neg (by omega), more, Nat.pow_succ,
        Nat.div_div_eq_div_mul]

theorem byteSize_le {n bytes : ℕ} (fits : n < 2 ^ (8 * bytes)) : byteSize n ≤ bytes := by
  have bits := Nat.size_le.mpr fits
  unfold byteSize
  omega

theorem exponent_le {n bytes : ℕ} (fits : n < 2 ^ (8 * bytes)) : exponent n ≤ bytes + 1 := by
  have within := byteSize_le fits
  unfold exponent
  split_ifs <;> omega

theorem mantissa_lt_of_exponent (fits : n < 2 ^ 256) (most : 32 < exponent n) :
    mantissa n < 2 ^ 16 := by
  have bytes : byteSize n ≤ 32 := byteSize_le fits
  have bound := leading_lt n
  unfold exponent at most
  unfold mantissa
  split_ifs at most ⊢ <;> omega

def kept (n : ℕ) : ℕ := n / 256 ^ (exponent n - 3) * 256 ^ (exponent n - 3)

theorem kept_le (n : ℕ) : kept n ≤ n := Nat.div_mul_le_self n _

theorem kept_pos (positive : 0 < n) : 0 < kept n := by
  have least := le_mantissa positive
  rw [mantissa_eq] at least
  unfold kept
  split_ifs at least with short
  · rwa [Nat.sub_eq_zero_of_le short, Nat.pow_zero, Nat.div_one, Nat.mul_one]
  · exact Nat.mul_pos (by omega) (Nat.pow_pos (by decide))

theorem le_kept {n m : ℕ} (multiple : 256 ^ (exponent n - 3) ∣ m) (le : m ≤ n) : m ≤ kept n := by
  obtain ⟨above, rfl⟩ := multiple
  rw [kept, Nat.mul_comm]
  apply Nat.mul_le_mul_right
  rwa [Nat.le_div_iff_mul_le (Nat.pow_pos (by decide)), Nat.mul_comm]

theorem kept_eq (small : n < 2 ^ 23) : kept n = n := by
  have bytes : byteSize n ≤ 3 := byteSize_le (by omega)
  have short : exponent n ≤ 3 := by
    unfold exponent
    split_ifs with low
    · exact bytes
    · by_contra long
      have three : byteSize n = 3 := by omega
      rw [leading, three] at low
      simp only [le_refl, ↓reduceIte, Nat.sub_self, Nat.pow_zero, Nat.mul_one] at low
      exact low small
  rw [kept, Nat.sub_eq_zero_of_le short, Nat.pow_zero, Nat.div_one, Nat.mul_one]

end Compact

namespace UInt256

section Decoding

variable {size word : ℕ} (fits : size < 256) (small : word < 2 ^ 23)
include fits small

theorem toNat_word : (UInt32.ofNat (size * 2 ^ 24 + word)).toNat = size * 2 ^ 24 + word := by
  rw [UInt32.toNat_ofNat']
  exact mod_eq_of_lt (by omega)

theorem size_of_word : ((UInt32.ofNat (size * 2 ^ 24 + word)) >>> 24).toNat = size := by
  rw [UInt32.toNat_shiftRight, toNat_word fits small, Nat.shiftRight_eq_div_pow]
  change (size * 2 ^ 24 + word) / 2 ^ 24 = size
  omega

theorem mantissa_of_word : ((UInt32.ofNat (size * 2 ^ 24 + word)) &&& 0x007fffff).toNat = word := by
  rw [UInt32.toNat_and, toNat_word fits small,
    show (0x007fffff : UInt32).toNat = 2 ^ 23 - 1 from rfl, Nat.and_two_pow_sub_one_eq_mod]
  omega

theorem sign_of_word : (UInt32.ofNat (size * 2 ^ 24 + word)) &&& 0x00800000 = 0 := by
  apply UInt32.toNat_inj.mp
  have clear : (size * 2 ^ 24 + word).testBit 23 = false := by
    rw [Nat.testBit_eq_decide_div_mod_eq, decide_eq_false_iff_not]
    omega
  rw [UInt32.toNat_and, toNat_word fits small, show (0x00800000 : UInt32).toNat = 2 ^ 23 from rfl,
    Nat.and_two_pow, clear]
  rfl

theorem toNat_setCompact :
    (setCompact (UInt32.ofNat (size * 2 ^ 24 + word))).toNat =
      if size ≤ 3 then word / 256 ^ (3 - size) else word * 256 ^ (size - 3) % 2 ^ 256 := by
  have bound (k : ℕ) : word / k < 2 ^ 256 :=
    Nat.lt_of_le_of_lt (Nat.div_le_self word k) (Nat.lt_trans small (by decide))
  simp only [setCompact, size_of_word fits small, mantissa_of_word fits small]
  split_ifs
  · rw [BitVec.toNat_ofNat, mod_eq_of_lt (bound _)]
  · rw [BitVec.toNat_shiftLeft, BitVec.toNat_ofNat, Nat.shiftLeft_eq, Nat.pow_mul,
      mod_eq_of_lt (Nat.lt_trans small (by decide))]

theorem compactFlags_eq (below : size ≤ 33) (short : 32 < size → word < 2 ^ 16) :
    compactFlags (UInt32.ofNat (size * 2 ^ 24 + word)) = (false, false) := by
  simp only [compactFlags, size_of_word fits small, mantissa_of_word fits small,
    sign_of_word fits small, ne_eq, not_true_eq_false, and_false, decide_false, Prod.mk.injEq,
    true_and, decide_eq_false_iff_not]
  split_ifs <;> omega

end Decoding

variable (a : UInt256)

theorem getCompact_eq :
    getCompact a false = Compact.exponent a.toNat * 2 ^ 24 + Compact.mantissa a.toNat := by
  exact Compact.assemble_eq a.toNat

/-- **Decoding a compact form** gives what it keeps of the number. -/
theorem toNat_setCompact_getCompact :
    (setCompact (UInt32.ofNat (getCompact a false))).toNat = Compact.kept a.toNat := by
  have size : Compact.exponent a.toNat ≤ 33 := Compact.exponent_le a.isLt
  rw [getCompact_eq, toNat_setCompact (by omega) (Compact.mantissa_lt _), Compact.mantissa_eq]
  split_ifs with short
  · rw [Nat.mul_div_cancel _ (Nat.pow_pos (by decide)), Compact.kept,
      Nat.sub_eq_zero_of_le short, Nat.pow_zero, Nat.div_one, Nat.mul_one]
  · exact mod_eq_of_lt (Nat.lt_of_le_of_lt (Compact.kept_le _) a.isLt)

theorem compactFlags_getCompact :
    compactFlags (UInt32.ofNat (getCompact a false)) = (false, false) := by
  have size : Compact.exponent a.toNat ≤ 33 := Compact.exponent_le a.isLt
  rw [getCompact_eq]
  exact compactFlags_eq (by omega) (Compact.mantissa_lt _) size
    (Compact.mantissa_lt_of_exponent a.isLt)

end UInt256

end DogeCash
