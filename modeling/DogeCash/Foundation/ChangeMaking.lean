import Mathlib.Algebra.Order.BigOperators.Group.List
import Mathlib.Tactic.Linarith
import Mathlib.Tactic.Ring

/-! # Paying with coins that divide each other

Where every denomination is a multiple of all smaller ones, an amount that some of the coins at hand
add up to is paid by taking, from the largest denomination on, as many coins as fit.
-/

namespace DogeCash

open Function (update update_of_ne update_self)
open List (mem_cons mem_cons_of_mem mem_cons_self mem_map nodup_cons)

variable {ι : Type} {value held used other : ι → ℤ} {denom : ι} {denoms : List ι} {amount : ℤ}

def worth (value : ι → ℤ) (denoms : List ι) (used : ι → ℤ) : ℤ :=
  (denoms.map fun denom => value denom * used denom).sum

/-- Denominations from the largest on, each a multiple of those after it. -/
structure Coinage (value : ι → ℤ) (denoms : List ι) : Prop where
  nodup : denoms.Nodup
  positive : ∀ denom ∈ denoms, 0 < value denom
  chain : denoms.Pairwise fun larger smaller => value smaller ∣ value larger

def Payable (value held : ι → ℤ) (denoms : List ι) (amount : ℤ) : Prop :=
  ∃ used, (∀ denom ∈ denoms, 0 ≤ used denom ∧ used denom ≤ held denom) ∧
    worth value denoms used = amount

/-- The number of coins when an amount is paid from the largest denomination on, with as many of
each as fit. -/
def changeCount (value : ι → ℤ) : List ι → ℤ → ℤ
  | [], _ => 0
  | denom :: denoms, amount =>
    amount / value denom + changeCount value denoms (amount % value denom)

theorem changeCount_zero (value : ι → ℤ) (denoms : List ι) : changeCount value denoms 0 = 0 := by
  induction denoms with
  | nil => rfl
  | cons denom denoms ih => rw [changeCount, Int.zero_ediv, Int.zero_emod, ih, add_zero]

/-- No more coins are paid back than the amount has units of the smallest denomination. -/
theorem changeCount_mul_le {unit : ℤ} (positive : 0 < unit) :
    ∀ {denoms : List ι} {amount : ℤ}, (∀ denom ∈ denoms, unit ≤ value denom) → 0 ≤ amount →
      0 ≤ changeCount value denoms amount ∧ changeCount value denoms amount * unit ≤ amount
  | [], _, _, nonneg => ⟨le_rfl, (zero_mul unit).trans_le nonneg⟩
  | denom :: denoms, amount, least, nonneg => by
    have large := least denom mem_cons_self
    have number := Int.ediv_nonneg nonneg (positive.le.trans large)
    have rest := changeCount_mul_le positive
      (fun smaller mem => least smaller (mem_cons_of_mem _ mem))
      (Int.emod_nonneg amount (positive.trans_le large).ne')
    have split := Int.mul_ediv_add_emod amount (value denom)
    have coins : amount / value denom * unit ≤ value denom * (amount / value denom) := by
      rw [mul_comm]
      exact mul_le_mul_of_nonneg_right large number
    rw [changeCount, add_mul]
    exact ⟨add_nonneg number rest.1, by linarith [rest.2]⟩

theorem worth_cons (denom : ι) (denoms : List ι) (used : ι → ℤ) :
    worth value (denom :: denoms) used = value denom * used denom + worth value denoms used :=
  List.sum_cons

theorem worth_congr (same : ∀ denom ∈ denoms, used denom = other denom) :
    worth value denoms used = worth value denoms other :=
  congrArg List.sum (List.map_congr_left fun denom mem => by rw [same denom mem])

theorem worth_zero : worth value denoms (fun _ => 0) = 0 :=
  List.sum_eq_zero fun term mem => by
    obtain ⟨-, -, rfl⟩ := mem_map.mp mem
    exact mul_zero _

theorem worth_sub : worth value denoms (fun denom => used denom - other denom) =
    worth value denoms used - worth value denoms other := by
  induction denoms with
  | nil => rfl
  | cons denom denoms ih => rw [worth_cons, worth_cons, worth_cons, ih]; ring

theorem worth_reverse (used : ι → ℤ) :
    worth value denoms.reverse used = worth value denoms used := by
  rw [worth, worth, List.map_reverse, List.sum_reverse]

theorem worth_nonneg (positive : ∀ denom ∈ denoms, 0 < value denom)
    (nonneg : ∀ denom ∈ denoms, 0 ≤ used denom) : 0 ≤ worth value denoms used := by
  refine List.sum_nonneg fun term mem => ?_
  obtain ⟨denom, inside, rfl⟩ := mem_map.mp mem
  exact mul_nonneg (positive denom inside).le (nonneg denom inside)

/-- More coins of each denomination are worth more. -/
theorem worth_mono (positive : ∀ denom ∈ denoms, 0 < value denom)
    (fewer : ∀ denom ∈ denoms, used denom ≤ other denom) :
    worth value denoms used ≤ worth value denoms other :=
  List.sum_le_sum fun denom mem =>
    mul_le_mul_of_nonneg_left (fewer denom mem) (positive denom mem).le

namespace Coinage

section

variable (coinage : Coinage value (denom :: denoms))
include coinage

theorem tail : Coinage value denoms where
  nodup := (nodup_cons.mp coinage.nodup).2
  positive := fun smaller mem => coinage.positive smaller (mem_cons_of_mem _ mem)
  chain := (List.pairwise_cons.mp coinage.chain).2

theorem dvd_head : ∀ smaller ∈ denoms, value smaller ∣ value denom :=
  (List.pairwise_cons.mp coinage.chain).1

theorem head_not_mem : denom ∉ denoms := (nodup_cons.mp coinage.nodup).1

end

end Coinage

section

variable [DecidableEq ι]

theorem worth_update_of_not_mem (fresh : denom ∉ denoms) (count : ℤ) :
    worth value denoms (update used denom count) = worth value denoms used := by
  refine worth_congr fun smaller mem => ?_
  rw [update_of_ne]
  rintro rfl
  exact fresh mem

theorem worth_update (nodup : denoms.Nodup) (mem : denom ∈ denoms) (count : ℤ) :
    worth value denoms (update used denom count) =
      worth value denoms used + value denom * (count - used denom) := by
  induction denoms with
  | nil => cases mem
  | cons first denoms ih =>
    rw [nodup_cons] at nodup
    rw [worth_cons, worth_cons]
    by_cases same : first = denom
    · subst same
      rw [update_self, worth_update_of_not_mem nodup.1]
      ring
    · rw [update_of_ne same, ih nodup.2 ((mem_cons.mp mem).resolve_left (Ne.symm same))]
      ring

theorem Payable.cons (coinage : Coinage value (denom :: denoms)) {count : ℤ} (nonneg : 0 ≤ count)
    (atHand : count ≤ held denom)
    (rest : Payable value held denoms (amount - value denom * count)) :
    Payable value held (denom :: denoms) amount := by
  obtain ⟨used, bounded, total⟩ := rest
  refine ⟨update used denom count, fun smaller mem => ?_, ?_⟩
  · by_cases same : smaller = denom
    · rw [same, update_self]
      exact ⟨nonneg, atHand⟩
    · rw [update_of_ne same]
      exact bounded smaller ((mem_cons.mp mem).resolve_left same)
  · rw [worth_cons, update_self, worth_update_of_not_mem coinage.head_not_mem, total]
    ring

theorem Payable.of_dvd (coinage : Coinage value denoms) (atHand : ∀ denom ∈ denoms, 0 ≤ held denom)
    (multiple : ∀ denom ∈ denoms, value denom ∣ amount) (nonneg : 0 ≤ amount)
    (enough : amount ≤ worth value denoms held) : Payable value held denoms amount := by
  induction denoms generalizing amount with
  | nil => exact ⟨held, fun _ => nofun, le_antisymm nonneg enough⟩
  | cons denom denoms ih =>
    have positive := coinage.positive denom mem_cons_self
    obtain ⟨count, rfl⟩ := multiple denom mem_cons_self
    have countNonneg : 0 ≤ count := nonneg_of_mul_nonneg_right nonneg positive
    -- Either the first denomination alone is enough, or all its coins are needed.
    rcases le_or_gt count (held denom) with within | beyond
    · refine cons coinage countNonneg within (ih coinage.tail ?_ ?_ (by rw [sub_self]) ?_)
      · exact fun smaller mem => atHand smaller (mem_cons_of_mem _ mem)
      · exact fun smaller _ => by rw [sub_self]; exact dvd_zero _
      · rw [sub_self]
        exact worth_nonneg coinage.tail.positive
          fun smaller mem => atHand smaller (mem_cons_of_mem _ mem)
    · refine cons coinage (atHand denom mem_cons_self) le_rfl (ih coinage.tail ?_ ?_ ?_ ?_)
      · exact fun smaller mem => atHand smaller (mem_cons_of_mem _ mem)
      · intro smaller mem
        rw [← mul_sub]
        exact (coinage.dvd_head smaller mem).mul_right _
      · rw [← mul_sub]
        exact mul_nonneg positive.le (sub_nonneg.mpr beyond.le)
      · rw [worth_cons] at enough
        linarith

theorem Payable.tail (coinage : Coinage value (denom :: denoms))
    (payable : Payable value held (denom :: denoms) amount) {count : ℤ}
    (fits : 0 ≤ amount - value denom * count)
    (most : amount - value denom * count < value denom ∨ held denom ≤ count) :
    Payable value held denoms (amount - value denom * count) := by
  obtain ⟨used, bounded, total⟩ := payable
  rw [worth_cons] at total
  have positive := coinage.positive denom mem_cons_self
  have boundedRest : ∀ smaller ∈ denoms, 0 ≤ used smaller ∧ used smaller ≤ held smaller :=
    fun smaller mem => bounded smaller (mem_cons_of_mem _ mem)
  have restNonneg := worth_nonneg coinage.tail.positive fun smaller mem =>
    (boundedRest smaller mem).1
  -- Some payment uses no more coins of the denomination than are taken.
  have fewer : used denom ≤ count := by
    rcases most with small | all
    · have below : value denom * used denom < value denom * (count + 1) := by
        linarith
      exact Int.lt_add_one_iff.mp (lt_of_mul_lt_mul_left below positive.le)
    · exact (bounded denom mem_cons_self).2.trans all
  -- The smaller coins in it that make up for the difference are left out.
  have exchange : Payable value used denoms (value denom * (count - used denom)) := by
    refine Payable.of_dvd coinage.tail (fun smaller mem => (boundedRest smaller mem).1) ?_
      (mul_nonneg positive.le (sub_nonneg.mpr fewer)) ?_
    · exact fun smaller mem => (coinage.dvd_head smaller mem).mul_right _
    · linarith
  obtain ⟨left, part, same⟩ := exchange
  refine ⟨fun smaller => used smaller - left smaller, fun smaller mem => ?_, ?_⟩
  · have partOf := part smaller mem
    have within := boundedRest smaller mem
    exact ⟨by linarith, by linarith⟩
  · rw [worth_sub, same, mul_sub]
    linarith

end

end DogeCash
