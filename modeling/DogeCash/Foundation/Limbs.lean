import Mathlib.Data.Nat.Digits.Defs

/-! # Numbers in limbs

A number is kept as a fixed number of limbs, the lowest first, in some base. Products of limbs
and carries are computed in double words and stay below the square of the base. Multiplying by
a limb, and by another number row by row, gives the product up to the limbs that there are.
-/

namespace DogeCash

open Nat (mod_eq_of_lt mod_lt mod_one ofDigits ofDigits_cons zero_lt_of_lt)
open List (length_cons length_nil)

namespace Limbs

def ofNat (B : ℕ) : ℕ → ℕ → List ℕ
  | 0, _ => []
  | width + 1, n => n % B :: ofNat B width (n / B)

/-- Multiply by one limb, from a carry on. -/
def scale (B factor : ℕ) : ℕ → List ℕ → List ℕ
  | _, [] => []
  | carry, limb :: rest =>
    let n := (carry + factor * limb) % (B * B)
    n % B :: scale B factor (n / B) rest

/-- Add a multiple of the second number to the first, from a carry on. -/
def addScaled (B factor : ℕ) : ℕ → List ℕ → List ℕ → List ℕ
  | _, [], _ => []
  | _, sum, [] => sum
  | carry, digit :: sum, limb :: rest =>
    let n := (carry + digit + factor * limb) % (B * B)
    n % B :: addScaled B factor (n / B) sum rest

/-- Add the product of two numbers, one row for each limb of the first; the next row starts one
limb further up. -/
def addProduct (B : ℕ) (limbs : List ℕ) : List ℕ → List ℕ → List ℕ
  | [], sum => sum
  | factor :: rest, sum =>
    match addScaled B factor 0 sum limbs with
    | [] => []
    | low :: high => low :: addProduct B limbs rest high

/-- Add one. The carry stops at the first limb that does not wrap around. -/
def increment (B : ℕ) : List ℕ → List ℕ
  | [] => []
  | limb :: rest =>
    let n := (limb + 1) % B
    n :: if n = 0 then increment B rest else rest

def complement (B : ℕ) (limbs : List ℕ) : List ℕ := limbs.map (B - 1 - ·)

def orInto (limbs : List ℕ) (writes : List (ℕ × ℕ)) : List ℕ :=
  writes.foldl (fun limbs write => limbs.modify write.1 (· ||| write.2)) limbs

def Proper (B : ℕ) (limbs : List ℕ) : Prop := ∀ limb ∈ limbs, limb < B

@[simp] theorem proper_nil (B : ℕ) : Proper B [] := fun _ mem => (by cases mem)

variable {limbs : List ℕ}

@[simp] theorem proper_cons {B limb : ℕ} :
    Proper B (limb :: limbs) ↔ limb < B ∧ Proper B limbs := List.forall_mem_cons

variable {B : ℕ}

@[simp] theorem length_ofNat (width n : ℕ) : (ofNat B width n).length = width := by
  induction width generalizing n with
  | zero => rfl
  | succ width ih => rw [ofNat, length_cons, ih]

theorem proper_ofNat (positive : 0 < B) (width n : ℕ) : Proper B (ofNat B width n) := by
  induction width generalizing n with
  | zero => exact proper_nil B
  | succ width ih => exact proper_cons.mpr ⟨mod_lt n positive, ih (n / B)⟩

theorem ofDigits_ofNat (width n : ℕ) : ofDigits B (ofNat B width n) = n % B ^ width := by
  induction width generalizing n with
  | zero => rw [Nat.pow_zero, mod_one]; rfl
  | succ width ih =>
    rw [ofNat, ofDigits_cons, ih, Nat.pow_succ', Nat.mod_mul]

theorem double_lt {factor limb carry digit : ℕ} (factorProper : factor < B) (limbProper : limb < B)
    (carryProper : carry < B) (digitProper : digit < B) :
    carry + digit + factor * limb < B * B := by
  obtain ⟨b, rfl⟩ := Nat.exists_eq_add_one_of_ne_zero (Nat.ne_zero_of_lt factorProper)
  have product : factor * limb ≤ b * b :=
    Nat.mul_le_mul (Nat.le_of_lt_succ factorProper) (Nat.le_of_lt_succ limbProper)
  have square : (b + 1) * (b + 1) = b * b + 2 * b + 1 := by ring
  omega

theorem digit_add_rest (B n rest width : ℕ) :
    n % B + B * ((n / B + rest) % B ^ width) = (n + B * rest) % B ^ (width + 1) := by
  rcases Nat.eq_zero_or_pos B with rfl | positive
  · simp
  · rw [Nat.pow_succ', Nat.mod_mul, Nat.add_mul_mod_self_left, Nat.add_mul_div_left _ _ positive]

variable {factor carry : ℕ}

theorem ofDigits_scale (factorProper : factor < B) (carryProper : carry < B)
    (proper : Proper B limbs) :
    ofDigits B (scale B factor carry limbs) =
      (carry + factor * ofDigits B limbs) % B ^ limbs.length := by
  induction limbs generalizing carry with
  | nil => rw [length_nil, Nat.pow_zero, mod_one]; rfl
  | cons limb rest ih =>
    obtain ⟨limbProper, restProper⟩ := proper_cons.mp proper
    have fits := double_lt factorProper limbProper carryProper (zero_lt_of_lt factorProper)
    rw [Nat.add_zero] at fits
    have carries : (carry + factor * limb) / B < B := Nat.div_lt_of_lt_mul fits
    rw [scale, mod_eq_of_lt fits, ofDigits_cons, ih carries restProper,
      length_cons, digit_add_rest, ofDigits_cons]
    congr 1
    ring

theorem length_addScaled (factor carry : ℕ) (sum limbs : List ℕ) :
    (addScaled B factor carry sum limbs).length = sum.length := by
  induction sum generalizing carry limbs with
  | nil => rfl
  | cons digit sum ih =>
    cases limbs with
    | nil => rfl
    | cons limb rest => rw [addScaled, length_cons, length_cons, ih]

theorem proper_addScaled {sum : List ℕ} (proper : Proper B sum) (factor carry : ℕ)
    (limbs : List ℕ) : Proper B (addScaled B factor carry sum limbs) := by
  induction sum generalizing carry limbs with
  | nil => exact proper_nil B
  | cons digit sum ih =>
    obtain ⟨digitProper, sumProper⟩ := proper_cons.mp proper
    cases limbs with
    | nil => exact proper
    | cons limb rest =>
      exact proper_cons.mpr ⟨mod_lt _ (zero_lt_of_lt digitProper), ih sumProper _ rest⟩

theorem ofDigits_addScaled {sum limbs : List ℕ} (factorProper : factor < B)
    (carryProper : carry < B) (sumProper : Proper B sum) (proper : Proper B limbs)
    (covers : sum.length ≤ limbs.length) :
    ofDigits B (addScaled B factor carry sum limbs) =
      (carry + ofDigits B sum + factor * ofDigits B limbs) % B ^ sum.length := by
  induction sum generalizing carry limbs with
  | nil => rw [length_nil, Nat.pow_zero, mod_one]; rfl
  | cons digit sum ih =>
    cases limbs with
    | nil => cases covers
    | cons limb rest =>
      obtain ⟨digitProper, sumProper⟩ := proper_cons.mp sumProper
      obtain ⟨limbProper, restProper⟩ := proper_cons.mp proper
      have fits := double_lt factorProper limbProper carryProper digitProper
      have carries : (carry + digit + factor * limb) / B < B := Nat.div_lt_of_lt_mul fits
      rw [addScaled, mod_eq_of_lt fits, ofDigits_cons,
        ih carries sumProper restProper (Nat.le_of_succ_le_succ covers),
        Nat.add_assoc ((carry + digit + factor * limb) / B), length_cons,
        digit_add_rest, ofDigits_cons, ofDigits_cons]
      congr 1
      ring

/-- **The rows add up to the product**, up to the limbs that there are. -/
theorem ofDigits_addProduct (large : 1 < B) (proper : Proper B limbs) {factors sum : List ℕ}
    (factorsProper : Proper B factors) (sumProper : Proper B sum)
    (covers : sum.length ≤ limbs.length) :
    ofDigits B (addProduct B limbs factors sum) =
      (ofDigits B sum + ofDigits B factors * ofDigits B limbs) % B ^ sum.length := by
  induction factors generalizing sum with
  | nil =>
    rw [addProduct, Nat.ofDigits_nil, Nat.zero_mul, Nat.add_zero,
      mod_eq_of_lt (Nat.ofDigits_lt_base_pow_length large sumProper)]
  | cons factor factors ih =>
    obtain ⟨factorProper, factorsProper⟩ := proper_cons.mp factorsProper
    have row := ofDigits_addScaled factorProper (zero_lt_of_lt factorProper) sumProper
      proper covers
    have size := length_addScaled (B := B) factor 0 sum limbs
    have kept := proper_addScaled sumProper factor 0 limbs
    rw [addProduct]
    cases rows : addScaled B factor 0 sum limbs with
    | nil =>
      rw [rows] at size
      rw [← size, length_nil, Nat.pow_zero, mod_one]
      rfl
    | cons low high =>
      rw [rows] at row size kept
      obtain ⟨lowProper, highProper⟩ := proper_cons.mp kept
      rw [length_cons] at size
      have next := ih factorsProper highProper (by omega)
      have positive := zero_lt_of_lt factorProper
      -- The row is the sum up to here; its lowest limb is final.
      rw [Nat.zero_add, ← size, ofDigits_cons] at row
      have final : (low + B * ofDigits B high) % B = low := by
        rw [Nat.add_mul_mod_self_left, mod_eq_of_lt lowProper]
      have onward : (low + B * ofDigits B high) / B = ofDigits B high := by
        rw [Nat.add_mul_div_left _ _ positive, Nat.div_eq_of_lt lowProper, Nat.zero_add]
      have rest := digit_add_rest B (low + B * ofDigits B high)
        (ofDigits B factors * ofDigits B limbs) high.length
      rw [final, onward, row, Nat.mod_add_mod] at rest
      rw [ofDigits_cons, next, rest, ← size, ofDigits_cons]
      congr 1
      ring

theorem getD_ofNat (width n i : ℕ) :
    (ofNat B width n).getD i 0 = if i < width then n / B ^ i % B else 0 := by
  induction width generalizing n i with
  | zero => rfl
  | succ width ih =>
    cases i with
    | zero => rw [if_pos (Nat.succ_pos _), Nat.pow_zero, Nat.div_one]; rfl
    | succ i =>
      rw [ofNat, List.getD_cons_succ, ih, Nat.div_div_eq_div_mul, ← Nat.pow_succ']
      simp

theorem ofDigits_increment (large : 1 < B) (proper : Proper B limbs) :
    ofDigits B (increment B limbs) = (ofDigits B limbs + 1) % B ^ limbs.length := by
  induction limbs with
  | nil => rw [length_nil, Nat.pow_zero, mod_one]; rfl
  | cons limb rest ih =>
    obtain ⟨limbProper, restProper⟩ := proper_cons.mp proper
    rw [increment, ofDigits_cons, ofDigits_cons, length_cons]
    by_cases wraps : limb + 1 = B
    · rw [wraps, Nat.mod_self, if_pos rfl, ih restProper, Nat.zero_add, Nat.pow_succ',
        ← Nat.mul_mod_mul_left]
      congr 1
      rw [Nat.mul_add_one, Nat.add_right_comm, wraps, Nat.add_comm]
    · have fits : limb + 1 < B := by omega
      have kept : Proper B ((limb + 1) :: rest) := proper_cons.mpr ⟨fits, restProper⟩
      have below := Nat.ofDigits_lt_base_pow_length large kept
      rw [ofDigits_cons, length_cons, Nat.add_right_comm] at below
      rw [mod_eq_of_lt fits, if_neg (Nat.succ_ne_zero _), Nat.add_right_comm, mod_eq_of_lt below]

theorem ofDigits_complement (proper : Proper B limbs) :
    ofDigits B (complement B limbs) + ofDigits B limbs + 1 = B ^ limbs.length := by
  induction limbs with
  | nil => rfl
  | cons limb rest ih =>
    obtain ⟨limbProper, restProper⟩ := proper_cons.mp proper
    rw [complement, List.map_cons, ofDigits_cons, ofDigits_cons, length_cons,
      Nat.pow_succ', ← ih restProper, ← complement]
    obtain ⟨above, rfl⟩ := Nat.exists_eq_add_of_lt limbProper
    rw [show limb + above + 1 - 1 - limb = above by omega]
    ring

/-! ## Bits -/

variable {width : ℕ}

theorem proper_orInto {writes : List (ℕ × ℕ)} (proper : Proper (2 ^ width) limbs)
    (words : ∀ write ∈ writes, write.2 < 2 ^ width) :
    Proper (2 ^ width) (orInto limbs writes) := by
  induction writes generalizing limbs with
  | nil => exact proper
  | cons write writes ih =>
    obtain ⟨here, later⟩ := List.forall_mem_cons.mp words
    refine ih (fun limb mem => ?_) later
    obtain ⟨i, same⟩ := List.mem_iff_getElem?.mp mem
    rw [List.getElem?_modify] at same
    obtain ⟨old, there, rfl⟩ := Option.map_eq_some_iff.mp same
    have small := proper old (List.mem_of_getElem? there)
    split_ifs
    · exact Nat.or_lt_two_pow small here
    · exact small

theorem testBit_orInto (writes : List (ℕ × ℕ)) {i : ℕ} (inside : i < limbs.length) (bit : ℕ) :
    ((orInto limbs writes).getD i 0).testBit bit = true ↔
      (limbs.getD i 0).testBit bit = true ∨
        ∃ write ∈ writes, write.1 = i ∧ write.2.testBit bit = true := by
  induction writes generalizing limbs with
  | nil => simp [orInto]
  | cons write writes ih =>
    have here : (limbs.modify write.1 (· ||| write.2)).getD i 0 =
        if write.1 = i then limbs.getD i 0 ||| write.2 else limbs.getD i 0 := by
      rw [List.getD_eq_getElem?_getD, List.getD_eq_getElem?_getD, List.getElem?_modify,
        List.getElem?_eq_getElem inside]
      split_ifs <;> rfl
    refine (ih (by rwa [List.length_modify])).trans ?_
    rw [here]
    by_cases same : write.1 = i <;> simp [same, or_assoc]

theorem testBit_ofDigits (positive : 0 < width) (proper : Proper (2 ^ width) limbs) (bit : ℕ) :
    (ofDigits (2 ^ width) limbs).testBit bit =
      (limbs.getD (bit / width) 0).testBit (bit % width) := by
  induction limbs generalizing bit with
  | nil => simp
  | cons limb rest ih =>
    obtain ⟨limbProper, restProper⟩ := proper_cons.mp proper
    rw [ofDigits_cons, Nat.add_comm, Nat.testBit_two_pow_mul_add _ limbProper]
    by_cases low : bit < width
    · rw [if_pos low, Nat.div_eq_of_lt low, mod_eq_of_lt low]
      rfl
    · have high := Nat.le_of_not_lt low
      rw [if_neg low, ih restProper, Nat.div_eq_sub_div positive high, List.getD_cons_succ,
        ← Nat.mod_eq_sub_mod high]

end Limbs

end DogeCash
