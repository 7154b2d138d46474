import Mathlib.Algebra.BigOperators.Group.List.Basic
import Mathlib.Algebra.Ring.Int.Defs

/-! # Integers of 32 and 64 bits

An `int` holds an integer modulo 2^32 and an `int64_t` one modulo 2^64, as the one nearest to
zero. Sums wrap around, and a sum of many numbers is the exact sum wrapped once.
-/

namespace DogeCash

/-- What an `int` keeps of an integer. -/
def wrapInt (n : Int) : Int := n.bmod (2 ^ 32)

/-- The integers that an `int64_t` holds. -/
def FitsInt64 (n : Int) : Prop := -2 ^ 63 ≤ n ∧ n < 2 ^ 63

instance (n : Int) : Decidable (FitsInt64 n) := inferInstanceAs (Decidable (_ ∧ _))

/-- What an `int64_t` keeps of an integer. -/
def wrapInt64 (n : Int) : Int := n.bmod (2 ^ 64)

/-- What an `int64_t` leaves out of an integer, a multiple of 2^64. -/
def lostInt64 (n : Int) : Int := n - wrapInt64 n

/-- The sum of two `int64_t`, which wraps around. -/
def addInt64 (a b : Int) : Int := wrapInt64 (a + b)

/-- The difference of two `int64_t`, which wraps around. -/
def subInt64 (a b : Int) : Int := wrapInt64 (a - b)

variable {a b n : Int}

/-- An `int` keeps the numbers from 0 to its largest value. -/
theorem wrapInt_of_lt (nonneg : 0 ≤ n) (below : n < 2 ^ 31) : wrapInt n = n :=
  Int.bmod_eq_of_le (by omega) (by omega)

/-- Counts added one after another give the exact count, wrapped once. -/
theorem foldl_wrapInt {α : Type} (count : α → Int) (items : List α) (start : Int) :
    items.foldl (fun sum item => wrapInt (sum + count item)) (wrapInt start) =
      wrapInt (start + (items.map count).sum) := by
  induction items generalizing start with
  | nil => rw [List.foldl_nil, List.map_nil, List.sum_nil, add_zero]
  | cons item rest ih =>
    have once : wrapInt (wrapInt start + count item) = wrapInt (start + count item) :=
      Int.bmod_add_bmod
    rw [List.foldl_cons, once, ih, List.map_cons, List.sum_cons, add_assoc]

/-- What fits is kept as it is. -/
theorem wrapInt64_of_fits (fits : FitsInt64 n) : wrapInt64 n = n :=
  Int.bmod_eq_of_le (by have := fits.1; omega) (by have := fits.2; omega)

/-- What is kept fits. -/
theorem fits_wrapInt64 (n : Int) : FitsInt64 (wrapInt64 n) := by
  have lower := Int.le_bmod (x := n) (m := 2 ^ 64) (by decide)
  have upper := Int.bmod_lt (x := n) (m := 2 ^ 64) (by decide)
  exact ⟨by rw [wrapInt64]; omega, by rw [wrapInt64]; omega⟩

/-- A sum may be wrapped in its first part already. -/
theorem wrapInt64_wrap_add (a b : Int) : wrapInt64 (wrapInt64 a + b) = wrapInt64 (a + b) :=
  Int.bmod_add_bmod

/-- A difference may be wrapped in its first part already. -/
theorem wrapInt64_wrap_sub (a b : Int) : wrapInt64 (wrapInt64 a - b) = wrapInt64 (a - b) :=
  wrapInt64_wrap_add a (-b)

/-- A sum that fits is exact. -/
theorem addInt64_of_fits (lower : -2 ^ 63 ≤ a + b) (upper : a + b < 2 ^ 63) :
    addInt64 a b = a + b :=
  wrapInt64_of_fits ⟨lower, upper⟩

/-- Numbers added one after another give the exact sum, wrapped once. -/
theorem foldl_addInt64 {α : Type} (amount : α → Int) (items : List α) {start : Int}
    (fits : FitsInt64 start) :
    items.foldl (fun ret item => addInt64 ret (amount item)) start =
      wrapInt64 (start + (items.map amount).sum) := by
  induction items generalizing start with
  | nil => rw [List.foldl_nil, List.map_nil, List.sum_nil, add_zero, wrapInt64_of_fits fits]
  | cons item rest ih =>
    have kept : FitsInt64 (addInt64 start (amount item)) := fits_wrapInt64 _
    rw [List.foldl_cons, ih kept, addInt64, wrapInt64_wrap_add, List.map_cons, List.sum_cons,
      add_assoc]

end DogeCash
