import Mathlib.Data.List.Basic

/-! # Batches of writes

A database is a partial function. A batch of writes or of erasures is performed in order;
what a key holds afterwards comes from the batch if the batch names it, and is as before
otherwise.
-/

namespace DogeCash

open Function (update update_of_ne update_self)

variable {α β : Type} [DecidableEq α]

def writeAll (writes : List (α × β)) (map : α → Option β) : α → Option β :=
  writes.foldl (fun map write => update map write.1 (some write.2)) map

def eraseAll (keys : List α) (map : α → Option β) : α → Option β :=
  keys.foldl (fun map key => update map key none) map

variable {writes : List (α × β)} {map : α → Option β} {key : α} {keys : List α} {value : β}

theorem writeAll_of_not_mem (absent : key ∉ writes.map Prod.fst) :
    writeAll writes map key = map key := by
  induction writes generalizing map with
  | nil => rfl
  | cons write rest ih =>
    rw [List.map_cons, List.mem_cons, not_or] at absent
    have later : writeAll rest (update map write.1 (some write.2)) key = _ := ih absent.2
    exact later.trans (update_of_ne absent.1 _ _)

theorem writeAll_of_mem (present : key ∈ writes.map Prod.fst) :
    ∃ value, (key, value) ∈ writes ∧ writeAll writes map key = some value := by
  induction writes generalizing map with
  | nil => cases present
  | cons write rest ih =>
    by_cases later : key ∈ rest.map Prod.fst
    · obtain ⟨value, mem, written⟩ : ∃ value, (key, value) ∈ rest ∧
          writeAll rest (update map write.1 (some write.2)) key = some value :=
        ih later
      exact ⟨value, List.mem_cons_of_mem _ mem, written⟩
    · have here : key = write.1 := by
        rw [List.map_cons, List.mem_cons] at present
        exact present.resolve_right later
      subst here
      refine ⟨write.2, List.mem_cons_self, ?_⟩
      have kept : writeAll rest (update map write.1 (some write.2)) write.1 = _ :=
        writeAll_of_not_mem later
      exact kept.trans (update_self ..)

theorem eraseAll_of_not_mem (absent : key ∉ keys) : eraseAll keys map key = map key := by
  induction keys generalizing map with
  | nil => rfl
  | cons first rest ih =>
    rw [List.mem_cons, not_or] at absent
    have later : eraseAll rest (update map first none) key = _ := ih absent.2
    exact later.trans (update_of_ne absent.1 _ _)

theorem eraseAll_apply (keys : List α) (map : α → Option β) (key : α) :
    eraseAll keys map key = if key ∈ keys then none else map key := by
  induction keys generalizing map with
  | nil => rw [if_neg List.not_mem_nil, eraseAll, List.foldl_nil]
  | cons first rest ih =>
    have later : eraseAll (first :: rest) map key = eraseAll rest (update map first none) key := rfl
    rw [later, ih]
    by_cases here : key = first
    · simp [here]
    · simp [here]

theorem writeAll_append (first second : List (α × β)) (map : α → Option β) :
    writeAll (first ++ second) map = writeAll second (writeAll first map) :=
  List.foldl_append

theorem eraseAll_eraseAll (first second : List α) (map : α → Option β) :
    eraseAll first (eraseAll second map) = eraseAll (first ++ second) map := by
  funext key
  simp only [eraseAll_apply, List.mem_append]
  by_cases here : key ∈ first
  · simp [here]
  · simp [here]

theorem writeAll_congr (present : key ∈ writes.map Prod.fst) (map other : α → Option β) :
    writeAll writes map key = writeAll writes other key := by
  induction writes generalizing map other with
  | nil => cases present
  | cons write rest ih =>
    have first : ∀ start : α → Option β, writeAll (write :: rest) start =
        writeAll rest (update start write.1 (some write.2)) := fun _ => rfl
    rw [first, first]
    by_cases later : key ∈ rest.map Prod.fst
    · exact ih later _ _
    · have here : key = write.1 := by
        rw [List.map_cons, List.mem_cons] at present
        exact present.resolve_right later
      rw [writeAll_of_not_mem later, writeAll_of_not_mem later, here, update_self, update_self]

theorem eraseAll_eq_self_iff : eraseAll keys map = map ↔ ∀ key ∈ keys, map key = none := by
  constructor
  · intro same key mem
    rw [← same, eraseAll_apply, if_pos mem]
  · intro empty
    funext key
    rw [eraseAll_apply]
    split_ifs with mem
    · exact (empty key mem).symm
    · rfl

theorem writeAll_eraseAll_eq_self_iff :
    writeAll writes (eraseAll (writes.map Prod.fst) map) = map ↔
      ∀ key ∈ writes.map Prod.fst, map key = writeAll writes (fun _ => none) key := by
  constructor
  · intro same key mem
    rw [← writeAll_congr mem (eraseAll (writes.map Prod.fst) map), same]
  · intro written
    funext key
    by_cases mem : key ∈ writes.map Prod.fst
    · rw [writeAll_congr mem _ fun _ => none, written key mem]
    · rw [writeAll_of_not_mem mem, eraseAll_of_not_mem mem]

theorem update_none_eq_some {erased key : α} :
    update map erased none key = some value ↔ key ≠ erased ∧ map key = some value := by
  by_cases here : key = erased
  · simp [here]
  · simp [here]

theorem forall_update_some {property : α → β → Prop} (new : property key value)
    (old : ∀ other held, other ≠ key → map other = some held → property other held) :
    ∀ other held, update map key (some value) other = some held → property other held := by
  intro other held present
  by_cases same : other = key
  · subst other
    rw [update_self, Option.some_inj] at present
    rw [← present]
    exact new
  · rw [update_of_ne same] at present
    exact old other held same present

theorem eraseAll_eq_some :
    eraseAll keys map key = some value ↔ key ∉ keys ∧ map key = some value := by
  rw [eraseAll_apply]
  by_cases here : key ∈ keys
  · simp [here]
  · simp [here]

end DogeCash
