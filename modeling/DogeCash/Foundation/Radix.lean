import Mathlib.Data.Nat.Digits.Lemmas

/-! # Changing the base of a number in a buffer

A number in one base is read digit by digit, the highest first, into a buffer of digits in another
base: what is in the buffer is multiplied by the first base, and the digit is added. No carry is
left at the end of the buffer as long as the number fits. A buffer whose size is a rational bound
on the quotient of the logarithms always fits. What is in the buffer, without the zeros in front,
are the digits of the number.
-/

namespace DogeCash.Radix

def value (base : ℕ) (digits : List ℕ) : ℕ := digits.foldl (fun n digit => base * n + digit) 0

theorem value_eq_ofDigits (base : ℕ) (digits : List ℕ) :
    value base digits = Nat.ofDigits base digits.reverse := by
  rw [Nat.ofDigits_eq_foldr, List.foldr_reverse, value]
  congr 1
  funext n digit
  exact Nat.add_comm _ _

theorem value_cons (base digit : ℕ) (digits : List ℕ) :
    value base (digit :: digits) = value base digits + base ^ digits.length * digit := by
  rw [value_eq_ofDigits, value_eq_ofDigits, Nat.ofDigits_reverse_cons]

theorem value_dropWhile (base : ℕ) (digits : List ℕ) :
    value base (digits.dropWhile (· = 0)) = value base digits := by
  induction digits with
  | nil => rfl
  | cons digit digits ih =>
    by_cases zero : digit = 0
    · rw [List.dropWhile_cons_of_pos (by simpa using zero), ih, value_cons, zero, Nat.mul_zero,
        Nat.add_zero]
    · rw [List.dropWhile_cons_of_neg (by simpa using zero)]

/-! The digits of a number, the highest first. -/

theorem value_digits (base n : ℕ) : value base (Nat.digits base n).reverse = n := by
  rw [value_eq_ofDigits, List.reverse_reverse, Nat.ofDigits_digits]

theorem head_digits_ne_zero (base n : ℕ) :
    ∀ h : (Nat.digits base n).reverse ≠ [], (Nat.digits base n).reverse.head h ≠ 0 := by
  intro nonempty
  rw [List.head_reverse]
  exact Nat.getLast_digit_ne_zero base
    (Nat.digits_ne_nil_iff_ne_zero.mp (List.reverse_ne_nil_iff.mp nonempty))

variable {digits : List ℕ}

theorem digits_value {base : ℕ} (large : 1 < base) (proper : ∀ digit ∈ digits, digit < base)
    (other : ∀ h : digits ≠ [], digits.head h ≠ 0) :
    (Nat.digits base (value base digits)).reverse = digits := by
  rw [value_eq_ofDigits, Nat.digits_ofDigits base large, List.reverse_reverse]
  · exact fun digit mem => proper digit (List.mem_reverse.mp mem)
  · intro nonempty
    rw [List.getLast_reverse]
    exact other (List.reverse_ne_nil_iff.mp nonempty)

theorem foldl_lt {base n room : ℕ} (proper : ∀ digit ∈ digits, digit < base)
    (small : n < base ^ room) :
    digits.foldl (fun n digit => base * n + digit) n < base ^ (room + digits.length) := by
  induction digits generalizing n room with
  | nil => exact small
  | cons digit digits ih =>
    obtain ⟨here, proper⟩ := List.forall_mem_cons.mp proper
    have next : base * n + digit < base ^ (room + 1) := by
      have above : base * (n + 1) ≤ base * base ^ room := Nat.mul_le_mul_left base small
      rw [Nat.pow_succ']
      rw [Nat.mul_add_one] at above
      omega
    rw [List.foldl_cons, List.length_cons, Nat.add_comm digits.length 1, ← Nat.add_assoc]
    exact ih proper next

/-- Multiply what is in a buffer and add a digit, from the last place to the first. The carry that
is left comes first. -/
def mulAdd (factor base : ℕ) (buffer : List ℕ) (carry : ℕ) : ℕ × List ℕ :=
  buffer.foldr (fun it state =>
    ((state.1 + factor * it) / base, (state.1 + factor * it) % base :: state.2)) (carry, [])

def append {ε : Type} (fault : ε) (factor base : ℕ) (buffer : List ℕ) (digit : ℕ) :
    Except ε (List ℕ) :=
  let outcome := mulAdd factor base buffer digit
  if outcome.1 ≠ 0 then .error fault else .ok outcome.2

section

variable {factor base : ℕ}

theorem length_mulAdd (buffer : List ℕ) (carry : ℕ) :
    (mulAdd factor base buffer carry).2.length = buffer.length := by
  induction buffer with
  | nil => rfl
  | cons it buffer ih => exact congrArg Nat.succ ih

theorem lt_of_mem_mulAdd (positive : 0 < base) (buffer : List ℕ) (carry : ℕ) :
    ∀ digit ∈ (mulAdd factor base buffer carry).2, digit < base := by
  induction buffer with
  | nil => exact nofun
  | cons it buffer ih => exact List.forall_mem_cons.mpr ⟨Nat.mod_lt _ positive, ih⟩

theorem value_mulAdd (factor base : ℕ) (buffer : List ℕ) (carry : ℕ) :
    value base (mulAdd factor base buffer carry).2 +
        base ^ buffer.length * (mulAdd factor base buffer carry).1 =
      factor * value base buffer + carry := by
  induction buffer with
  | nil => simp [mulAdd, value]
  | cons it buffer ih =>
    have step : mulAdd factor base (it :: buffer) carry =
        (((mulAdd factor base buffer carry).1 + factor * it) / base,
          ((mulAdd factor base buffer carry).1 + factor * it) % base ::
            (mulAdd factor base buffer carry).2) := rfl
    rw [step, value_cons, length_mulAdd, List.length_cons, value_cons, Nat.pow_succ, Nat.mul_assoc,
      Nat.add_assoc, ← Nat.mul_add, Nat.mod_add_div, Nat.mul_add, ← Nat.add_assoc, ih]
    ring

end

/-- A buffer of digits that spell a number. -/
structure Holds (base size n : ℕ) (buffer : List ℕ) : Prop where
  length : buffer.length = size
  proper : ∀ digit ∈ buffer, digit < base
  spells : value base buffer = n

namespace Holds

variable {ε : Type} {factor base size n : ℕ} {buffer : List ℕ}

theorem zeros (positive : 0 < base) (size : ℕ) : Holds base size 0 (List.replicate size 0) where
  length := List.length_replicate
  proper digit mem := List.eq_of_mem_replicate mem ▸ positive
  spells := by rw [value_eq_ofDigits, List.reverse_replicate, Nat.ofDigits_replicate_zero]

theorem append (fault : ε) (holds : Holds base size n buffer) (positive : 0 < base) {digit : ℕ}
    (fits : factor * n + digit < base ^ size) :
    ∃ next, append fault factor base buffer digit = .ok next ∧
      Holds base size (factor * n + digit) next := by
  have total := value_mulAdd factor base buffer digit
  rw [holds.spells, holds.length] at total
  have none : (mulAdd factor base buffer digit).1 = 0 := by
    by_contra left
    have above := Nat.le_mul_of_pos_right (base ^ size) (Nat.pos_of_ne_zero left)
    omega
  refine ⟨_, if_neg (not_not.mpr none), (length_mulAdd _ _).trans holds.length,
    lt_of_mem_mulAdd positive _ _, ?_⟩
  rwa [none, Nat.mul_zero, Nat.add_zero] at total

theorem foldlM {digits : List ℕ} {room : ℕ} (fault : ε) (holds : Holds base size n buffer)
    (positive : 0 < base) (proper : ∀ digit ∈ digits, digit < factor) (small : n < factor ^ room)
    (fits : factor ^ (room + digits.length) ≤ base ^ size) :
    ∃ final, digits.foldlM (Radix.append fault factor base) buffer = .ok final ∧
      Holds base size (digits.foldl (fun n digit => factor * n + digit) n) final := by
  induction digits generalizing n room buffer with
  | nil => exact ⟨buffer, rfl, holds⟩
  | cons digit digits ih =>
    obtain ⟨here, others⟩ := List.forall_mem_cons.mp proper
    have next : factor * n + digit < factor ^ (room + 1) :=
      foldl_lt (List.forall_mem_singleton.mpr here) small
    have shift : room + 1 + digits.length = room + (digit :: digits).length := by
      rw [List.length_cons]
      omega
    have inside : factor * n + digit < base ^ size :=
      next.trans_le ((Nat.pow_le_pow_right (Nat.zero_lt_of_lt here) (by simp)).trans fits)
    obtain ⟨middle, step, held⟩ := holds.append fault positive inside
    obtain ⟨final, rest, result⟩ := ih held others next (shift ▸ fits)
    refine ⟨final, ?_, result⟩
    rw [List.foldlM_cons, step]
    exact rest

theorem dropWhile_eq (holds : Holds base size n buffer) (large : 1 < base) :
    buffer.dropWhile (· = 0) = (Nat.digits base n).reverse := by
  rw [← holds.spells, ← value_dropWhile, digits_value large]
  · intro digit mem
    exact holds.proper digit ((List.dropWhile_sublist _).subset mem)
  · intro nonempty
    exact of_decide_eq_false (List.head_dropWhile_not (fun digit : ℕ => digit = 0) nonempty)

end Holds

theorem pow_lt_pow_of_ratio {source target numerator denominator : ℕ} (large : 1 < target)
    (positive : 0 < denominator) (ratio : source ^ denominator ≤ target ^ numerator) (length : ℕ) :
    source ^ length < target ^ (length * numerator / denominator + 1) := by
  refine lt_of_pow_lt_pow_left₀ denominator (Nat.zero_le _) ?_
  have room : numerator * length < (length * numerator / denominator + 1) * denominator := by
    rw [Nat.mul_comm numerator, Nat.add_one_mul]
    exact Nat.lt_div_mul_add positive
  calc (source ^ length) ^ denominator
      = (source ^ denominator) ^ length := Nat.pow_right_comm _ _ _
    _ ≤ (target ^ numerator) ^ length := Nat.pow_le_pow_left ratio length
    _ = target ^ (numerator * length) := (Nat.pow_mul _ _ _).symm
    _ < target ^ ((length * numerator / denominator + 1) * denominator) :=
        Nat.pow_lt_pow_right large room
    _ = (target ^ (length * numerator / denominator + 1)) ^ denominator := Nat.pow_mul _ _ _

end DogeCash.Radix
