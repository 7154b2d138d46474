import Mathlib.Data.List.DropRight
import Mathlib.Data.List.GetD

/-! # Lists of slots with a canonical empty value

A list whose elements are slots, some of them empty: `empty` is the canonical
empty value and `isEmpty` the test the owner of the list uses. Such a list is
read at any position, positions past its end counting as empty, and it is kept
trimmed: no empty slot at its end. A trimmed list whose empty slots are all
canonical is determined by what it holds at each position
(`Slots.eq_of_getD_eq`), so an operation on trimmed lists is known as soon as
its effect at each position is known.
-/

namespace DogeCash.Slots

variable {α : Type*} (isEmpty : α → Bool) (empty : α)

def Canonical (slots : List α) : Prop := ∀ slot ∈ slots, isEmpty slot = true → slot = empty

def Trimmed (slots : List α) : Prop := slots.rdropWhile isEmpty = slots

def fill (slots : List α) (position : Nat) (value : α) : List α :=
  (slots ++ List.replicate (position + 1 - slots.length) empty).set position value

variable {isEmpty empty}

section

variable {slots : List α} (canonical : Canonical isEmpty empty slots)
include canonical

theorem Canonical.set (position : Nat) (value : α) (valid : isEmpty value = true → value = empty) :
    Canonical isEmpty empty (slots.set position value) := by
  intro slot mem holds
  rcases List.mem_or_eq_of_mem_set mem with old | rfl
  · exact canonical slot old holds
  · exact valid holds

theorem Canonical.rdropWhile : Canonical isEmpty empty (slots.rdropWhile isEmpty) := fun slot mem =>
  canonical slot ((List.rdropWhile_prefix isEmpty slots).subset mem)

theorem Canonical.fill (position : Nat) (value : α) (valid : isEmpty value = true → value = empty) :
    Canonical isEmpty empty (fill empty slots position value) := by
  apply Canonical.set _ position value valid
  intro slot mem holds
  rcases List.mem_append.mp mem with old | new
  · exact canonical slot old holds
  · exact (List.mem_replicate.mp new).2

end

theorem trimmed_rdropWhile (slots : List α) : Trimmed isEmpty (slots.rdropWhile isEmpty) :=
  List.rdropWhile_idempotent _ _

variable {slots : List α} {first second : List α}

theorem getD_rdropWhile (canonical : Canonical isEmpty empty slots) (position : Nat) :
    (slots.rdropWhile isEmpty).getD position empty = slots.getD position empty := by
  induction slots using List.reverseRecOn with
  | nil => rfl
  | append_singleton front last ih =>
    have frontCanonical : Canonical isEmpty empty front := fun slot mem =>
      canonical slot (List.mem_append_left _ mem)
    rw [List.rdropWhile_concat]
    by_cases holds : isEmpty last = true
    · have isCanonical : last = empty := canonical last (by simp) holds
      rw [if_pos holds, ih frontCanonical, isCanonical]
      by_cases inside : position < front.length
      · rw [List.getD_append _ _ _ _ inside]
      · rw [List.getD_append_right _ _ _ _ (Nat.le_of_not_lt inside),
          List.getD_eq_default _ _ (Nat.le_of_not_lt inside)]
        cases position - front.length <;> rfl
    · rw [if_neg holds]

theorem getD_set (slots : List α) (position other : Nat) (value : α)
    (inside : position < slots.length) :
    (slots.set position value).getD other empty =
      if other = position then value else slots.getD other empty := by
  by_cases same : other = position
  · subst same
    simp [List.getD_eq_getElem?_getD, inside]
  · simp [List.getD_eq_getElem?_getD, List.getElem?_set_ne (Ne.symm same), same]

theorem getD_fill (slots : List α) (position other : Nat) (value : α) :
    (fill empty slots position value).getD other empty =
      if other = position then value else slots.getD other empty := by
  unfold fill
  rw [getD_set _ _ _ _ (by rw [List.length_append, List.length_replicate]; omega)]
  by_cases same : other = position
  · simp [same]
  · by_cases inside : other < slots.length
    · rw [List.getD_append _ _ _ _ inside]
    · rw [List.getD_append_right _ _ _ _ (Nat.le_of_not_lt inside),
        List.getD_eq_default _ _ (Nat.le_of_not_lt inside)]
      simp

section

variable (isEmptyEmpty : isEmpty empty = true)
include isEmptyEmpty

private theorem length_le_of_getD_eq (trimmed : Trimmed isEmpty first)
    (same : ∀ position, first.getD position empty = second.getD position empty) :
    first.length ≤ second.length := by
  by_contra longer
  have nonempty : first ≠ [] := by
    intro nil
    simp [nil] at longer
  have last : first.getD (first.length - 1) empty = first.getLast nonempty := by
    rw [List.getLast_eq_getElem, List.getD_eq_getElem]
  rw [same, List.getD_eq_default _ _ (by omega)] at last
  exact List.rdropWhile_eq_self_iff.mp trimmed nonempty (last ▸ isEmptyEmpty)

theorem eq_of_getD_eq (firstTrimmed : Trimmed isEmpty first)
    (secondTrimmed : Trimmed isEmpty second)
    (same : ∀ position, first.getD position empty = second.getD position empty) :
    first = second := by
  have lengths : first.length = second.length :=
    Nat.le_antisymm (length_le_of_getD_eq isEmptyEmpty firstTrimmed same)
      (length_le_of_getD_eq isEmptyEmpty secondTrimmed fun position => (same position).symm)
  apply List.ext_getElem lengths
  intro position inFirst inSecond
  simpa only [List.getD_eq_getElem _ _ inFirst, List.getD_eq_getElem _ _ inSecond] using
    same position

/-- **Writing back a cleared slot.** Clearing an occupied slot of a trimmed list
and trimming, then writing the old value back and trimming, gives the list back. -/
theorem rdropWhile_fill_rdropWhile_set {position : Nat} {value : α}
    (canonical : Canonical isEmpty empty slots) (trimmed : Trimmed isEmpty slots)
    (inside : slots[position]? = some value) (occupied : isEmpty value = false) :
    (fill empty ((slots.set position empty).rdropWhile isEmpty) position value).rdropWhile isEmpty =
      slots := by
  have bound : position < slots.length := (List.getElem?_eq_some_iff.mp inside).1
  have cleared : Canonical isEmpty empty (slots.set position empty) :=
    canonical.set position empty fun _ => rfl
  apply eq_of_getD_eq isEmptyEmpty (trimmed_rdropWhile _) trimmed
  intro other
  rw [getD_rdropWhile (cleared.rdropWhile.fill position value (by simp [occupied])), getD_fill,
    getD_rdropWhile cleared, getD_set _ _ _ _ bound]
  by_cases same : other = position
  · subst same
    simp [List.getD_eq_getElem?_getD, inside]
  · simp [same]

end

end DogeCash.Slots
