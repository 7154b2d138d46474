import Mathlib.Data.List.Lex
import Mathlib.Order.Lattice

/-! # Ordered stores

A store of entries in the order of their keys, as a database with a cursor has them. A cursor
that is put at a key goes through the entries from there on (`seek`), and a scan ends at the first
key that is of another kind. Where the keys of a kind lie together, a scan sees all of them
(`mem_scan`).
-/

namespace DogeCash

open List (mem_cons mem_filter pairwise_cons)

/-- Entries in the order of their keys, no two of which are the same. -/
structure SortedStore (κ ν : Type*) [LinearOrder κ] where
  entries : List (κ × ν)
  sorted : entries.Pairwise fun first second => first.1 < second.1

namespace SortedStore

variable {κ ν : Type*} [LinearOrder κ]

def get (store : SortedStore κ ν) (key : κ) : Option ν :=
  (store.entries.find? fun entry => entry.1 = key).map Prod.snd

def erase (store : SortedStore κ ν) (key : κ) : SortedStore κ ν where
  entries := store.entries.filter fun entry => entry.1 ≠ key
  sorted := store.sorted.filter _

def seek (store : SortedStore κ ν) (key : κ) : List (κ × ν) :=
  store.entries.dropWhile fun entry => entry.1 < key

def scan (store : SortedStore κ ν) (start : κ) (kind : κ → Bool) : List (κ × ν) :=
  (store.seek start).takeWhile fun entry => kind entry.1

variable {store : SortedStore κ ν} {key : κ} {value : ν} {entry : κ × ν}

theorem get_eq_some : store.get key = some value ↔ (key, value) ∈ store.entries := by
  have unique : store.entries.Pairwise fun first second => first.1 ≠ second.1 :=
    store.sorted.imp fun before => before.ne
  rw [get, Option.map_eq_some_iff]
  constructor
  · intro found
    obtain ⟨entry, first, rfl⟩ := found
    have same : entry.1 = key := by simpa using List.find?_some first
    rw [← same]
    exact List.mem_of_find?_eq_some first
  · intro mem
    generalize store.entries = entries at unique mem
    induction entries with
    | nil => cases mem
    | cons head rest ih =>
      obtain ⟨others, unique⟩ := pairwise_cons.mp unique
      rcases mem_cons.mp mem with rfl | mem
      · exact ⟨_, List.find?_cons_of_pos (decide_eq_true rfl), rfl⟩
      · rw [List.find?_cons_of_neg (by simpa using others _ mem)]
        exact ih unique mem

theorem get_eq_none : store.get key = none ↔ ∀ entry ∈ store.entries, entry.1 ≠ key := by
  rw [get, Option.map_eq_none_iff, List.find?_eq_none]
  exact forall₂_congr fun entry mem => not_congr decide_eq_true_iff

theorem get_congr {other : SortedStore κ ν}
    (same : ∀ value, (key, value) ∈ store.entries ↔ (key, value) ∈ other.entries) :
    store.get key = other.get key :=
  Option.ext fun value => get_eq_some.trans ((same value).trans get_eq_some.symm)

theorem mem_erase : entry ∈ (store.erase key).entries ↔ entry ∈ store.entries ∧ entry.1 ≠ key := by
  rw [erase, mem_filter, decide_eq_true_iff]

theorem mem_foldl_erase {keys : List κ} :
    entry ∈ (keys.foldl erase store).entries ↔ entry ∈ store.entries ∧ entry.1 ∉ keys := by
  induction keys generalizing store with
  | nil => simp
  | cons key rest ih => rw [List.foldl_cons, ih, mem_erase, mem_cons, not_or, and_assoc]

theorem mem_seek : entry ∈ store.seek key ↔ entry ∈ store.entries ∧ key ≤ entry.1 := by
  have sorted := store.sorted
  rw [seek]
  generalize store.entries = entries at sorted
  induction entries with
  | nil => simp
  | cons head rest ih =>
    obtain ⟨before, sorted⟩ := pairwise_cons.mp sorted
    by_cases below : head.1 < key
    · have later : _ ↔ _ := ih sorted
      rw [List.dropWhile_cons_of_pos (by simpa using below), later, mem_cons]
      refine and_congr_left fun reached => (or_iff_right ?_).symm
      rintro rfl
      exact absurd below (not_lt.mpr reached)
    · rw [List.dropWhile_cons_of_neg (by simpa using below)]
      refine (and_iff_left_of_imp fun mem => ?_).symm
      rcases mem_cons.mp mem with rfl | mem
      · exact not_lt.mp below
      · exact (not_lt.mp below).trans (before _ mem).le

theorem pairwise_seek (store : SortedStore κ ν) (key : κ) :
    (store.seek key).Pairwise fun first second => first.1 < second.1 :=
  store.sorted.sublist (List.dropWhile_sublist _)

theorem mem_scan {start : κ} {kind : κ → Bool}
    (together : ∀ first second, start ≤ first → first < second → kind second = true →
      kind first = true) :
    entry ∈ store.scan start kind ↔
      entry ∈ store.entries ∧ start ≤ entry.1 ∧ kind entry.1 = true := by
  have sorted := store.pairwise_seek start
  have reached : ∀ entry ∈ store.seek start, start ≤ entry.1 :=
    fun entry mem => (mem_seek.mp mem).2
  rw [← and_assoc, ← mem_seek, scan]
  generalize store.seek start = entries at sorted reached
  induction entries with
  | nil => simp
  | cons head rest ih =>
    obtain ⟨before, sorted⟩ := pairwise_cons.mp sorted
    by_cases same : kind head.1 = true
    · have later : _ ↔ _ := ih sorted fun entry mem => reached entry (List.mem_cons_of_mem _ mem)
      rw [List.takeWhile_cons_of_pos (by exact same), mem_cons, mem_cons, later, or_and_right]
      refine or_congr_left (and_iff_left_of_imp ?_).symm
      rintro rfl
      exact same
    · rw [List.takeWhile_cons_of_neg (by exact same)]
      refine iff_of_false List.not_mem_nil fun found => same ?_
      obtain ⟨mem, ofKind⟩ := found
      rcases mem_cons.mp mem with rfl | mem
      · exact ofKind
      · exact together _ _ (reached _ List.mem_cons_self) (before _ mem) ofKind

end SortedStore

end DogeCash
