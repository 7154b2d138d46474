import Mathlib.Algebra.BigOperators.Group.List.Basic
import Mathlib.Data.List.AList

/-! # Merging finite maps

Finite maps as lists of entries with distinct keys. `mergeAll` goes through the
entries of one map and lets each of them change the entry of another map under
the same key; since the keys are distinct, the outcome at a key depends only on
what the two maps held there (`mergeAll_eq_some`). The total of a map is the sum of
the weights of its values.
-/

namespace DogeCash.KeyedMap

open List (map_cons sum_cons)

variable {α β γ : Type*} [DecidableEq α]

def put (map : AList fun _ : α => β) (key : α) : Option β → AList fun _ : α => β
  | some value => map.insert key value
  | none => map.erase key

section

variable (map : AList fun _ : α => β)
include map

theorem lookup_put (key other : α) (value : Option β) :
    (put map key value).lookup other = if other = key then value else map.lookup other := by
  by_cases same : other = key
  · subst same
    cases value with
    | none => simp [put, AList.lookup_erase]
    | some value => simp [put]
  · cases value with
    | none => rw [put, AList.lookup_erase_ne same, if_neg same]
    | some value => rw [put, AList.lookup_insert_ne same, if_neg same]

theorem lookup_insert_eq_ite (key other : α) (value : β) :
    (map.insert key value).lookup other = if other = key then some value else map.lookup other :=
  lookup_put map key other (some value)

theorem lookup_erase_eq_ite (key other : α) :
    (map.erase key).lookup other = if other = key then none else map.lookup other :=
  lookup_put map key other none

end

variable {property : α → β → Prop} {key : α} {keys : List α}

theorem forall_insert {map : AList fun _ : α => β} {value : β} (new : property key value)
    (old : ∀ other held, map.lookup other = some held → property other held) :
    ∀ other held, (map.insert key value).lookup other = some held → property other held := by
  intro other held here
  rw [lookup_insert_eq_ite] at here
  split_ifs at here with same
  · cases here
    rw [same]
    exact new
  · exact old other held here

theorem forall_erase {map : AList fun _ : α => β}
    (old : ∀ other held, map.lookup other = some held → property other held) :
    ∀ other held, (map.erase key).lookup other = some held → property other held := by
  intro other held here
  rw [lookup_erase_eq_ite] at here
  split_ifs at here
  exact old other held here

/-- Let entries change a map one after another, stopping at the first that
cannot. -/
def mergeEntries (merge : Option β → γ → Option (Option β)) (map : AList fun _ : α => β) :
    List (Sigma fun _ : α => γ) → Option (AList fun _ : α => β)
  | [] => some map
  | ⟨key, value⟩ :: rest =>
    match merge (map.lookup key) value with
    | none => none
    | some entry => mergeEntries merge (put map key entry) rest

def mergeAll (merge : Option β → γ → Option (Option β)) (map : AList fun _ : α => β)
    (changes : AList fun _ : α => γ) : Option (AList fun _ : α => β) :=
  mergeEntries merge map changes.entries

private theorem mergeEntries_eq_some {merge : Option β → γ → Option (Option β)}
    (entries : List (Sigma fun _ : α => γ)) (map : AList fun _ : α => β)
    (nodup : entries.NodupKeys)
    (defined : ∀ key value, entries.dlookup key = some value →
      (merge (map.lookup key) value).isSome) :
    ∃ result, mergeEntries merge map entries = some result ∧ ∀ key,
      result.lookup key = match entries.dlookup key with
        | none => map.lookup key
        | some value => (merge (map.lookup key) value).getD none := by
  induction entries generalizing map with
  | nil => exact ⟨map, rfl, fun key => by simp⟩
  | cons entry rest ih =>
    obtain ⟨key, value⟩ := entry
    obtain ⟨absent, restNodup⟩ := List.nodupKeys_cons.mp nodup
    have missing : rest.dlookup key = none := List.dlookup_eq_none.mpr absent
    obtain ⟨changed, merged⟩ := Option.isSome_iff_exists.mp
      (defined key value (by simp))
    obtain ⟨result, returned, lookups⟩ := ih (put map key changed) restNodup (by
      intro other otherValue present
      have ne : other ≠ key := by
        rintro rfl
        rw [missing] at present
        cases present
      rw [lookup_put, if_neg ne]
      exact defined other otherValue (by rw [List.dlookup_cons_ne _ _ ne]; exact present))
    refine ⟨result, by simp only [mergeEntries, merged, returned], fun other => ?_⟩
    rw [lookups, lookup_put]
    by_cases same : other = key
    · subst same
      simp [missing, merged]
    · have elsewhere : List.dlookup other (⟨key, value⟩ :: rest : List (Sigma fun _ : α => γ)) =
          rest.dlookup other := List.dlookup_cons_ne _ _ same
      simp [same, elsewhere]

theorem mergeAll_eq_some (merge : Option β → γ → Option (Option β))
    (map : AList fun _ : α => β) (changes : AList fun _ : α => γ)
    (defined : ∀ key value, changes.lookup key = some value →
      (merge (map.lookup key) value).isSome) :
    ∃ result, mergeAll merge map changes = some result ∧ ∀ key,
      result.lookup key = match changes.lookup key with
        | none => map.lookup key
        | some value => (merge (map.lookup key) value).getD none :=
  mergeEntries_eq_some changes.entries map changes.nodupKeys defined

theorem length_erase_lt {map : AList fun _ : α => β} (present : key ∈ map) :
    (map.erase key).entries.length < map.entries.length := by
  have erased : (map.erase key).keys = map.keys.erase key := AList.keys_erase key map
  have shorter : (map.erase key).keys.length + 1 = map.keys.length := by
    rw [erased, List.length_erase_add_one present]
  simp only [AList.keys, List.keys, List.length_map] at shorter
  omega

section Sweep

private theorem kerase_eq_filter {entries : List (Sigma fun _ : α => β)}
    (nodup : entries.NodupKeys) (key : α) :
    entries.kerase key = entries.filter fun entry => entry.1 ≠ key := by
  induction entries with
  | nil => rfl
  | cons entry rest ih =>
    obtain ⟨absent, restNodup⟩ := List.nodupKeys_cons.mp nodup
    by_cases same : key = entry.1
    · rw [List.kerase_cons_eq same, List.filter_cons_of_neg (by simp [same])]
      refine (List.filter_eq_self.mpr fun other mem => ?_).symm
      have differ : other.1 ≠ key := by
        intro equal
        have inside : other.1 ∈ rest.keys := List.mem_map_of_mem mem
        rw [equal, same] at inside
        exact absent inside
      simpa using differ
    · rw [List.kerase_cons_ne same, ih restNodup,
        List.filter_cons_of_pos (by simpa using Ne.symm same)]

theorem entries_erase (map : AList fun _ : α => β) (key : α) :
    (map.erase key).entries = map.entries.filter fun entry => entry.1 ≠ key :=
  kerase_eq_filter map.nodupKeys key

def sweep (test : β → Bool) (map : AList fun _ : α => β) : AList fun _ : α => β :=
  map.entries.foldl (fun map entry => if test entry.2 then map.erase entry.1 else map) map

private theorem entries_foldl_erase (test : β → Bool) (entries : List (Sigma fun _ : α => β))
    (map : AList fun _ : α => β) :
    (entries.foldl (fun map entry => if test entry.2 then map.erase entry.1 else map) map).entries =
      map.entries.filter fun entry =>
        entries.all fun other => !test other.2 || decide (entry.1 ≠ other.1) := by
  induction entries generalizing map with
  | nil => simp
  | cons other rest ih =>
    rw [List.foldl_cons, ih]
    cases accepted : test other.2 with
    | false => simp [accepted]
    | true =>
      rw [if_pos rfl, entries_erase, List.filter_filter]
      simp [accepted, Bool.and_comm]

theorem entries_sweep (test : β → Bool) (map : AList fun _ : α => β) :
    (sweep test map).entries = map.entries.filter fun entry => !test entry.2 := by
  rw [sweep, entries_foldl_erase]
  refine List.filter_congr fun entry mem => ?_
  rw [Bool.eq_iff_iff, List.all_eq_true]
  constructor
  · intro kept
    simpa using kept entry mem
  · intro refused other inside
    by_cases same : entry.1 = other.1
    · have equal : entry = other := map.nodupKeys.eq_of_fst_eq mem inside same
      rw [← equal, refused, Bool.true_or]
    · simp [same]

end Sweep

section Total

variable {M : Type*} [AddCommMonoid M] (weight : β → M)

def total (map : AList fun _ : α => β) : M := (map.entries.map fun entry => weight entry.2).sum

variable {key : α} {value : β}

private theorem sum_kerase (entries : List (Sigma fun _ : α => β))
    (present : entries.dlookup key = some value) :
    (entries.map fun entry => weight entry.2).sum =
      weight value + ((entries.kerase key).map fun entry => weight entry.2).sum := by
  induction entries with
  | nil => cases present
  | cons entry rest ih =>
    obtain ⟨here, other⟩ := entry
    by_cases same : key = here
    · subst same
      rw [List.dlookup_cons_eq] at present
      cases present
      have erased : List.kerase key (⟨key, value⟩ :: rest : List (Sigma fun _ : α => β)) = rest :=
        List.kerase_cons_eq rfl
      rw [erased, map_cons, sum_cons]
    · rw [List.dlookup_cons_ne _ _ same] at present
      rw [List.kerase_cons_ne same, map_cons, map_cons, sum_cons, sum_cons,
        ih present, add_left_comm]

theorem total_erase {map : AList fun _ : α => β} (present : map.lookup key = some value) :
    total weight map = weight value + total weight (map.erase key) :=
  sum_kerase weight map.entries present

theorem total_insert {map : AList fun _ : α => β} (value : β) (absent : map.lookup key = none) :
    total weight (map.insert key value) = weight value + total weight map := by
  have missing : key ∉ map := AList.lookup_eq_none.mp absent
  rw [total, AList.entries_insert_of_notMem missing, map_cons, sum_cons]
  rfl

theorem total_insert_of_present {map : AList fun _ : α => β} {old : β} (value : β)
    (present : map.lookup key = some old) :
    total weight (map.insert key value) + weight old = weight value + total weight map := by
  have inserted : total weight (map.insert key value) =
      weight value + total weight (map.erase key) := by
    rfl
  rw [inserted, total_erase weight present, add_assoc, add_comm (weight old)]

end Total

omit [DecidableEq α] in
theorem total_eq_countP (map : AList fun _ : α => β) (picks : β → Bool) :
    total (fun value => if picks value then (1 : ℤ) else 0) map =
      map.entries.countP fun entry => picks entry.2 := by
  rw [total]
  induction map.entries with
  | nil => rfl
  | cons entry rest ih =>
    rw [map_cons, sum_cons, ih, List.countP_cons]
    split_ifs with picked
    · rw [Int.natCast_add, Int.natCast_one, add_comm]
    · rw [zero_add, add_zero]

theorem mem_entries_iff {map : AList fun _ : α => β} {entry : Sigma fun _ : α => β} :
    entry ∈ map.entries ↔ map.lookup entry.1 = some entry.2 :=
  (List.mem_dlookup_iff map.nodupKeys).symm

theorem countP_entries {map : AList fun _ : α => β} (distinct : keys.Nodup)
    (same : ∀ key, key ∈ map ↔ key ∈ keys) (picks : β → Bool) :
    map.entries.countP (fun entry => picks entry.2) =
      keys.countP fun key => (map.lookup key).any picks := by
  have order : map.keys.Perm keys := (List.perm_ext_iff_of_nodup map.nodupKeys distinct).mpr same
  rw [← order.countP_eq, AList.keys, List.keys, List.countP_map]
  refine List.countP_congr fun entry mem => ?_
  rw [Function.comp_apply, mem_entries_iff.mp mem]
  rfl

omit [DecidableEq α] in
theorem mem_keys_of_length {map : AList fun _ : α => β} (distinct : keys.Nodup)
    (inside : ∀ key ∈ keys, key ∈ map) (few : map.entries.length ≤ keys.length)
    (present : key ∈ map) : key ∈ keys := by
  have part : keys.Subperm map.keys := List.subperm_of_subset distinct inside
  have length : map.keys.length ≤ keys.length := by
    rwa [AList.keys, List.keys, List.length_map]
  exact (part.perm_of_length_le length).mem_iff.mpr present

end DogeCash.KeyedMap
