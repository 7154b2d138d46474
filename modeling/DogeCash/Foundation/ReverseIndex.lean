import DogeCash.Foundation.KeyedMap
import Mathlib.Data.Finset.Basic

/-! # Reverse indices

A reverse index leads from a key to the items that have the key. An item is added under each of
its keys and removed from each of them, and a key that no item is left under is erased.
-/

namespace DogeCash.ReverseIndex

variable {κ α : Type*} [DecidableEq κ]

def itemsAt (index : AList fun _ : κ => Finset α) (key : κ) : Finset α := (index.lookup key).getD ∅

section items

variable {index : AList fun _ : κ => Finset α} {key : κ}

theorem itemsAt_insert (items : Finset α) (place : κ) :
    itemsAt (index.insert key items) place =
      if place = key then items else itemsAt index place := by
  unfold itemsAt
  rw [KeyedMap.lookup_insert_eq_ite, apply_ite (Option.getD · ∅), Option.getD_some]

theorem itemsAt_erase (place : κ) :
    itemsAt (index.erase key) place = if place = key then ∅ else itemsAt index place := by
  unfold itemsAt
  rw [KeyedMap.lookup_erase_eq_ite, apply_ite (Option.getD · ∅), Option.getD_none]

end items

variable [DecidableEq α]

def add (item : α) (index : AList fun _ : κ => Finset α) (key : κ) : AList fun _ : κ => Finset α :=
  index.insert key (insert item (itemsAt index key))

/-- Remove an item from those under a key. -/
def remove (item : α) (index : AList fun _ : κ => Finset α) (key : κ) :
    AList fun _ : κ => Finset α :=
  match index.lookup key with
  | none => index
  | some items =>
    if items.erase item = ∅ then index.erase key else index.insert key (items.erase item)

def Clean (index : AList fun _ : κ => Finset α) : Prop :=
  ∀ key items, index.lookup key = some items → items.Nonempty

variable {index : AList fun _ : κ => Finset α} {item other : α} {key : κ}

variable {place : κ} {keys : List κ}

theorem mem_add :
    other ∈ itemsAt (add item index key) place ↔
      (other = item ∧ place = key) ∨ other ∈ itemsAt index place := by
  rw [add, itemsAt_insert]
  split_ifs with same
  · simp [same]
  · simp [same]

theorem clean_add (clean : Clean index) : Clean (add item index key) :=
  KeyedMap.forall_insert (Finset.insert_nonempty item _) clean

theorem itemsAt_remove (place : κ) :
    itemsAt (remove item index key) place =
      if place = key then (itemsAt index place).erase item else itemsAt index place := by
  unfold remove
  cases found : index.lookup key with
  | none =>
    split_ifs with same
    · rw [same, itemsAt, found]
      rfl
    · rfl
  | some items =>
    dsimp only
    have here : itemsAt index key = items := by
      rw [itemsAt, found]
      rfl
    split_ifs with emptied same same
    · rw [itemsAt_erase, if_pos same, same, here, emptied]
    · rw [itemsAt_erase, if_neg same]
    · rw [itemsAt_insert, if_pos same, same, here]
    · rw [itemsAt_insert, if_neg same]

theorem mem_remove :
    other ∈ itemsAt (remove item index key) place ↔
      other ∈ itemsAt index place ∧ ¬(other = item ∧ place = key) := by
  rw [itemsAt_remove]
  split_ifs with same
  · simp [same, and_comm]
  · simp [same]

theorem clean_remove (clean : Clean index) : Clean (remove item index key) := by
  unfold remove
  cases found : index.lookup key with
  | none => exact clean
  | some items =>
    dsimp only
    split_ifs with emptied
    · exact KeyedMap.forall_erase clean
    · exact KeyedMap.forall_insert (Finset.nonempty_iff_ne_empty.mpr emptied) clean

theorem mem_foldl_add :
    other ∈ itemsAt (keys.foldl (add item) index) place ↔
      (other = item ∧ place ∈ keys) ∨ other ∈ itemsAt index place := by
  induction keys generalizing index with
  | nil => simp
  | cons key keys ih =>
    rw [List.foldl_cons, ih, mem_add, List.mem_cons]
    tauto

theorem clean_foldl_add (clean : Clean index) : Clean (keys.foldl (add item) index) := by
  induction keys generalizing index with
  | nil => exact clean
  | cons key keys ih => exact ih (clean_add clean)

theorem mem_foldl_remove :
    other ∈ itemsAt (keys.foldl (remove item) index) place ↔
      other ∈ itemsAt index place ∧ ¬(other = item ∧ place ∈ keys) := by
  induction keys generalizing index with
  | nil => simp
  | cons key keys ih =>
    rw [List.foldl_cons, ih, mem_remove, List.mem_cons]
    tauto

theorem clean_foldl_remove (clean : Clean index) : Clean (keys.foldl (remove item) index) := by
  induction keys generalizing index with
  | nil => exact clean
  | cons key keys ih => exact ih (clean_remove clean)

end DogeCash.ReverseIndex
