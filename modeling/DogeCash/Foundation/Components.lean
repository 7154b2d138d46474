import DogeCash.Foundation.KeyedMap
import Mathlib.Data.Finset.Option
import Mathlib.Data.Finset.Sort

/-! # Merging overlapping groups

Groups are merged through a map from elements to shared groups, each with an address of its own. A
group absorbs the groups that it meets and takes their elements over; the absorbed ones are freed,
and their addresses can be given out again. No freed address is used, and the groups that are left
are the classes of the elements that chains of the given groups join.
-/

namespace DogeCash.Components

open Finset (mem_insert mem_sort sort_nodup)
open Option (bind_eq_bind bind_some isSome_iff_exists)

variable {α : Type}

/-- The groups by their addresses, the addresses in use, and the address for each element. -/
structure State (α : Type) where
  heap : AList fun _ : ℕ => Finset α
  unique : Finset ℕ
  setmap : α → Option ℕ

/-- An allocator gives an address that is not in use. -/
structure Allocator where
  malloc : List ℕ → ℕ
  fresh : ∀ live, malloc live ∉ live

section Merging

variable [DecidableEq α]

/-- Take over the elements of a group and free it. Nothing where it is freed already. -/
def absorb (merged : ℕ) (state : State α) (hit : ℕ) : Option (State α) := do
  let group ← state.heap.lookup hit
  let into ← state.heap.lookup merged
  some { state with
    heap := (state.heap.insert merged (into ∪ group)).erase hit
    unique := state.unique.erase hit }

/-- Merge a group with those that it meets, at a new address. -/
def mergeGroup (allocator : Allocator) (state : State α) (grouping : Finset α) :
    Option (State α) := do
  let hits := grouping.biUnion fun element => (state.setmap element).toFinset
  let merged := allocator.malloc state.heap.keys
  let state := { state with heap := state.heap.insert merged grouping }
  let state ← (hits.sort (· ≤ ·)).foldlM (absorb merged) state
  let elements ← state.heap.lookup merged
  some { state with
    unique := insert merged state.unique
    setmap := fun element => if element ∈ elements then some merged else state.setmap element }

def collect (found : AList (fun _ : ℕ => Finset α) × Finset (Finset α)) (pointer : ℕ) :
    Option (AList (fun _ : ℕ => Finset α) × Finset (Finset α)) := do
  let group ← found.1.lookup pointer
  some (found.1.erase pointer, insert group found.2)

/-- Merge some groups one after the other. -/
def mergeAll (allocator : Allocator) (groupings : List (Finset α)) :
    Option (Finset (Finset α)) := do
  let state ← groupings.foldlM (mergeGroup allocator) ⟨∅, ∅, fun _ => none⟩
  let (_, ret) ← (state.unique.sort (· ≤ ·)).foldlM collect (state.heap, ∅)
  some ret

end Merging

/-- Two elements are joined by a chain of groups each of which holds two neighbours. -/
def Joined (groups : Set (Finset α)) : α → α → Prop :=
  Relation.TransGen fun a b => ∃ group ∈ groups, a ∈ group ∧ b ∈ group

section Chains

variable {groups : Set (Finset α)} {group : Finset α} {a b : α}

section

variable (joined : Joined groups a b)
include joined

theorem Joined.symm : Joined groups b a := by
  induction joined with
  | single step =>
    obtain ⟨group, mem, here, there⟩ := step
    exact .single ⟨group, mem, there, here⟩
  | tail _ step ih =>
    obtain ⟨group, mem, here, there⟩ := step
    exact .head ⟨group, mem, there, here⟩ ih

theorem Joined.covered : ∃ group ∈ groups, a ∈ group := by
  induction joined with
  | single step =>
    obtain ⟨group, mem, here, -⟩ := step
    exact ⟨group, mem, here⟩
  | tail _ _ ih => exact ih

theorem Joined.insert : Joined (insert group groups) a b :=
  Relation.TransGen.mono
    (fun _ _ step => ⟨step.choose, .inr step.choose_spec.1, step.choose_spec.2⟩) _ _ joined

end

def Meets (groups : Set (Finset α)) (group : Finset α) (a : α) : Prop :=
  a ∈ group ∨ ∃ b ∈ group, Joined groups b a

theorem Meets.joined (meets : Meets groups group a) (joined : Joined groups a b) :
    Meets groups group b := by
  rcases meets with here | ⟨other, inside, before⟩
  · exact .inr ⟨a, here, joined⟩
  · exact .inr ⟨other, inside, before.trans joined⟩

/-- **One more group** joins the elements that meet it, and no others. -/
theorem joined_insert : Joined (insert group groups) a b ↔
    Joined groups a b ∨ Meets groups group a ∧ Meets groups group b := by
  have link (a b : α) (step : ∃ other ∈ insert group groups, a ∈ other ∧ b ∈ other) :
      Joined groups a b ∨ Meets groups group a ∧ Meets groups group b := by
    obtain ⟨other, rfl | mem, here, there⟩ := step
    · exact .inr ⟨.inl here, .inl there⟩
    · exact .inl (.single ⟨other, mem, here, there⟩)
  constructor
  · intro joined
    induction joined with
    | single step => exact link _ _ step
    | tail _ step ih =>
      rcases ih with before | ⟨first, last⟩ <;> rcases link _ _ step with next | ⟨near, far⟩
      · exact .inl (before.trans next)
      · exact .inr ⟨near.joined before.symm, far⟩
      · exact .inr ⟨first, last.joined next⟩
      · exact .inr ⟨first, far⟩
  · intro either
    have reach {c : α} (meets : Meets groups group c) {d : α} (inside : d ∈ group) :
        Joined (Insert.insert group groups) c d := by
      rcases meets with here | ⟨other, there, joined⟩
      · exact .single ⟨group, .inl rfl, here, inside⟩
      · exact joined.symm.insert.tail ⟨group, .inl rfl, there, inside⟩
    rcases either with joined | ⟨first, last⟩
    · exact joined.insert
    · rcases last with there | ⟨other, there, joined⟩
      · exact reach first there
      · exact (reach first there).trans joined.insert

end Chains

section Runs

variable [DecidableEq α] {allocator : Allocator} {state : State α} {groups : Set (Finset α)}

def At (state : State α) (pointer : ℕ) (a : α) : Prop :=
  ∃ group, state.heap.lookup pointer = some group ∧ a ∈ group

/-- The groups are alive and disjoint, and are what chains of the merged ones join. -/
structure Holds (groups : Set (Finset α)) (state : State α) : Prop where
  live : ∀ pointer, pointer ∈ state.unique ↔ (state.heap.lookup pointer).isSome
  owner : ∀ a pointer, state.setmap a = some pointer ↔ At state pointer a
  joined : ∀ a b, (∃ pointer, At state pointer a ∧ At state pointer b) ↔ Joined groups a b

/-- Some groups are taken over, and freed. -/
structure Absorbed (merged : ℕ) (hits : List ℕ) (state after : State α) (into : Finset α) :
    Prop where
  setmap : after.setmap = state.setmap
  unique : ∀ pointer, pointer ∈ after.unique ↔ pointer ∈ state.unique ∧ pointer ∉ hits
  freed : ∀ pointer ≠ merged,
    after.heap.lookup pointer = if pointer ∈ hits then none else state.heap.lookup pointer
  taken : ∃ elements, after.heap.lookup merged = some elements ∧
    ∀ a, a ∈ elements ↔ a ∈ into ∨ ∃ hit ∈ hits, At state hit a

theorem foldlM_absorb {merged : ℕ} (hits : List ℕ) {state : State α} {into : Finset α}
    (nodup : hits.Nodup) (other : merged ∉ hits) (here : state.heap.lookup merged = some into)
    (live : ∀ hit ∈ hits, (state.heap.lookup hit).isSome) :
    ∃ after, hits.foldlM (absorb merged) state = some after ∧
      Absorbed merged hits state after into := by
  induction hits generalizing state into with
  | nil => exact ⟨state, rfl, rfl, by simp, by simp, into, here, by simp⟩
  | cons hit hits ih =>
    obtain ⟨unlike, others⟩ := not_or.mp (mt List.mem_cons.mpr other)
    obtain ⟨new, nodup⟩ := List.nodup_cons.mp nodup
    obtain ⟨group, found⟩ := isSome_iff_exists.mp (live hit (.head _))
    let next : State α := { state with
      heap := (state.heap.insert merged (into ∪ group)).erase hit
      unique := state.unique.erase hit }
    have step : absorb merged state hit = some next := by
      simp [absorb, found, here, bind_eq_bind, next]
    have lookup (pointer : ℕ) : next.heap.lookup pointer =
        if pointer = hit then none else
          if pointer = merged then some (into ∪ group) else state.heap.lookup pointer := by
      rw [KeyedMap.lookup_erase_eq_ite, KeyedMap.lookup_insert_eq_ite]
    have kept {other : ℕ} (inside : other ∈ hits) :
        next.heap.lookup other = state.heap.lookup other := by
      rw [lookup, if_neg (ne_of_mem_of_not_mem inside new),
        if_neg (ne_of_mem_of_not_mem inside others)]
    obtain ⟨after, run, setmap, unique, freed, elements, taken, members⟩ :=
      ih nodup others (by rw [lookup, if_neg unlike, if_pos rfl]) fun other inside => by
        rw [kept inside]
        exact live other (.tail _ inside)
    refine ⟨after, ?_, setmap, fun pointer => ?_, fun pointer apart => ?_, elements, taken,
      fun a => ?_⟩
    · rw [List.foldlM_cons, step]
      exact run
    · rw [unique, Finset.mem_erase, List.mem_cons]
      tauto
    · grind
    · have held : At state hit a ↔ a ∈ group := by simp [At, found]
      rw [members, Finset.mem_union, List.exists_mem_cons_iff, held, or_assoc]
      exact or_congr_right (or_congr_right (exists_congr fun other =>
        and_congr_right fun inside => by rw [At, At, kept inside]))

omit [DecidableEq α] in
theorem Holds.unique_owner (holds : Holds groups state) {p q : ℕ} {a : α} (first : At state p a)
    (second : At state q a) : p = q :=
  Option.some.inj (((holds.owner a p).mpr first).symm.trans ((holds.owner a q).mpr second))

/-- **Merging a group** into disjoint ones, at a fresh address. -/
theorem Holds.mergeGroup (holds : Holds groups state)
    (grouping : Finset α) : ∃ after, mergeGroup allocator state grouping = some after ∧
      Holds (insert grouping groups) after := by
  let merged := allocator.malloc state.heap.keys
  let hits := grouping.biUnion fun element => (state.setmap element).toFinset
  let start : State α := { state with heap := state.heap.insert merged grouping }
  have unused : state.heap.lookup merged = none :=
    AList.lookup_eq_none.mpr (fun inside => allocator.fresh _ (AList.mem_keys.mp inside))
  have mem_hits (p : ℕ) : p ∈ hits ↔ ∃ element ∈ grouping, At state p element := by
    simp [hits, holds.owner]
  have apart {p : ℕ} {a : α} (there : At state p a) : p ≠ merged := by
    rintro rfl
    obtain ⟨group, found, -⟩ := there
    rw [unused] at found
    cases found
  have outside : merged ∉ hits.sort (· ≤ ·) := fun inside => by
    obtain ⟨element, -, there⟩ := (mem_hits merged).mp ((mem_sort _).mp inside)
    exact apart there rfl
  have same {p : ℕ} (other : p ≠ merged) : start.heap.lookup p = state.heap.lookup p :=
    AList.lookup_insert_ne other
  obtain ⟨after, run, setmap, unique, freed, elements, taken, members⟩ :=
    foldlM_absorb (hits.sort (· ≤ ·)) (sort_nodup _ _) outside
      (show start.heap.lookup merged = some grouping from AList.lookup_insert _) fun hit inside => by
        obtain ⟨element, -, there⟩ := (mem_hits hit).mp ((mem_sort _).mp inside)
        rw [same (apart there)]
        obtain ⟨group, found, -⟩ := there
        rw [found]
        rfl
  have before {p : ℕ} (other : p ≠ merged) (a : α) : At start p a ↔ At state p a := by
    rw [At, same other, At]
  have element (a : α) : a ∈ elements ↔ Meets groups grouping a := by
    rw [members, Meets]
    refine or_congr_right ⟨fun hit => ?_, fun meets => ?_⟩
    · obtain ⟨hit, inside, there⟩ := hit
      rw [mem_sort] at inside
      obtain ⟨b, mem, hitting⟩ := (mem_hits hit).mp inside
      have held := (before (apart hitting) a).mp there
      exact ⟨b, mem, (holds.joined b a).mp ⟨hit, hitting, held⟩⟩
    · obtain ⟨b, mem, joined⟩ := meets
      obtain ⟨hit, hitting, held⟩ := (holds.joined b a).mpr joined
      have inside := (mem_hits hit).mpr ⟨b, mem, hitting⟩
      exact ⟨hit, (mem_sort _).mpr inside, (before (apart hitting) a).mpr held⟩
  have lookup {p : ℕ} (other : p ≠ merged) :
      after.heap.lookup p = if p ∈ hits then none else state.heap.lookup p := by
    simp only [freed p other, mem_sort, same other]
  have survivor {p : ℕ} {a : α} (other : p ≠ merged) : At after p a ↔ p ∉ hits ∧ At state p a := by
    rw [At, lookup other, At]
    by_cases inside : p ∈ hits <;> simp [inside]
  have moved {p : ℕ} {a : α} (there : At state p a) : a ∈ elements ↔ p ∈ hits := by
    rw [element]
    constructor
    · rintro (inside | ⟨b, mem, joined⟩)
      · exact (mem_hits p).mpr ⟨a, inside, there⟩
      · obtain ⟨hit, hitting, held⟩ := (holds.joined b a).mpr joined
        rw [holds.unique_owner there held]
        exact (mem_hits hit).mpr ⟨b, mem, hitting⟩
    · intro inside
      obtain ⟨b, mem, hitting⟩ := (mem_hits p).mp inside
      exact .inr ⟨b, mem, (holds.joined b a).mp ⟨p, hitting, there⟩⟩
  have merged_iff (a : α) : At after merged a ↔ a ∈ elements := by simp [At, taken]
  refine ⟨{ after with
    unique := insert merged after.unique
    setmap := fun a => if a ∈ elements then some merged else after.setmap a }, ?_, ?_, ?_, ?_⟩
  · simp only [Components.mergeGroup, bind_eq_bind]
    erw [run]
    simp only [bind_some, merged] at taken ⊢
    rw [taken, bind_some]
  · intro p
    rw [mem_insert, unique, mem_sort, holds.live]
    by_cases other : p = merged
    · subst other
      exact ⟨fun _ => isSome_iff_exists.mpr ⟨elements, taken⟩, fun _ => .inl rfl⟩
    · rw [lookup other]
      by_cases inside : p ∈ hits <;> simp [inside, other]
  · intro a p
    change (if a ∈ elements then some merged else after.setmap a) = some p ↔ At after p a
    by_cases other : p = merged
    · subst other
      rw [merged_iff]
      split_ifs with inside
      · simp [inside]
      · rw [setmap]
        refine ⟨fun owned => absurd rfl (apart ((holds.owner _ _).mp owned)), fun held => ?_⟩
        exact absurd held inside
    · rw [survivor other]
      split_ifs with inside
      · refine ⟨fun owned => absurd (Option.some.inj owned).symm other, fun held => ?_⟩
        exact absurd ((moved held.2).mp inside) held.1
      · rw [setmap]
        refine (holds.owner a p).trans ⟨fun held => ⟨?_, held⟩, fun held => held.2⟩
        exact fun hit => inside ((moved held).mpr hit)
  · intro a b
    rw [joined_insert, ← element, ← element, ← holds.joined]
    constructor
    · rintro ⟨p, first, second⟩
      by_cases other : p = merged
      · subst other
        exact .inr ⟨(merged_iff a).mp first, (merged_iff b).mp second⟩
      · exact .inl ⟨p, ((survivor other).mp first).2, ((survivor other).mp second).2⟩
    · rintro (⟨p, first, second⟩ | ⟨first, second⟩)
      · by_cases inside : p ∈ hits
        · exact ⟨merged, (merged_iff a).mpr ((moved first).mpr inside),
            (merged_iff b).mpr ((moved second).mpr inside)⟩
        · exact ⟨p, (survivor (apart first)).mpr ⟨inside, first⟩,
            (survivor (apart second)).mpr ⟨inside, second⟩⟩
      · exact ⟨merged, (merged_iff a).mpr first, (merged_iff b).mpr second⟩

theorem foldlM_mergeGroup (groupings : List (Finset α))
    (holds : Holds groups state) :
    ∃ after, groupings.foldlM (mergeGroup allocator) state = some after ∧
      Holds (groups ∪ {group | group ∈ groupings}) after := by
  induction groupings generalizing groups state with
  | nil => exact ⟨state, rfl, by simpa using holds⟩
  | cons grouping groupings ih =>
    obtain ⟨next, step, holds⟩ := holds.mergeGroup grouping
    obtain ⟨after, run, holds⟩ := ih holds
    refine ⟨after, ?_, ?_⟩
    · rw [List.foldlM_cons, step]
      exact run
    · have all : groups ∪ {group | group ∈ grouping :: groupings} =
          insert grouping groups ∪ {group | group ∈ groupings} := by
        ext group
        simp only [Set.mem_union, Set.mem_ofPred_eq, List.mem_cons, Set.mem_insert_iff]
        tauto
      rwa [all]

theorem foldlM_collect (pointers : List ℕ) (heap : AList fun _ : ℕ => Finset α)
    (ret : Finset (Finset α)) (nodup : pointers.Nodup)
    (live : ∀ pointer ∈ pointers, (heap.lookup pointer).isSome) :
    ∃ left all, pointers.foldlM collect (heap, ret) = some (left, all) ∧
      ∀ group, group ∈ all ↔ group ∈ ret ∨ ∃ p ∈ pointers, heap.lookup p = some group := by
  induction pointers generalizing heap ret with
  | nil => exact ⟨heap, ret, rfl, by simp⟩
  | cons pointer pointers ih =>
    obtain ⟨new, nodup⟩ := List.nodup_cons.mp nodup
    obtain ⟨group, found⟩ := isSome_iff_exists.mp (live pointer (.head _))
    have kept {other : ℕ} (inside : other ∈ pointers) :
        (heap.erase pointer).lookup other = heap.lookup other :=
      AList.lookup_erase_ne (ne_of_mem_of_not_mem inside new)
    obtain ⟨left, all, run, members⟩ :=
      ih (heap.erase pointer) (insert group ret) nodup fun other inside => by
        rw [kept inside]
        exact live other (.tail _ inside)
    refine ⟨left, all, ?_, fun other => ?_⟩
    · simpa [List.foldlM_cons, collect, found] using run
    · rw [members, mem_insert, List.exists_mem_cons_iff, found, Option.some_inj,
        eq_comm (a := other), or_comm (a := group = other), or_assoc]
      exact or_congr_right (or_congr_right (exists_congr fun p =>
        and_congr_right fun inside => by rw [kept inside]))

/-- **The merged groups** are disjoint, and two elements are in one exactly if a chain of the given
groups joins them. -/
theorem mergeAll_eq_some (allocator : Allocator) (groupings : List (Finset α)) :
    ∃ ret, mergeAll allocator groupings = some ret ∧
      (∀ first ∈ ret, ∀ second ∈ ret, first ≠ second → Disjoint first second) ∧
      ∀ a b, (∃ group ∈ ret, a ∈ group ∧ b ∈ group) ↔ Joined {group | group ∈ groupings} a b := by
  have empty : Holds (∅ : Set (Finset α)) ⟨∅, ∅, fun _ => none⟩ := by
    refine ⟨by simp, by simp [At], fun a b => ⟨by simp [At], fun joined => ?_⟩⟩
    obtain ⟨group, none, -⟩ := joined.covered
    exact none.elim
  obtain ⟨state, run, holds⟩ := foldlM_mergeGroup groupings empty
  rw [Set.empty_union] at holds
  obtain ⟨left, ret, copied, members⟩ := foldlM_collect (state.unique.sort (· ≤ ·)) state.heap ∅
    (sort_nodup _ _) fun p inside => (holds.live p).mp ((mem_sort _).mp inside)
  have returned (group : Finset α) : group ∈ ret ↔ ∃ p, state.heap.lookup p = some group := by
    simp only [members, Finset.notMem_empty, false_or, mem_sort]
    refine exists_congr fun p => and_iff_right_of_imp fun found => ?_
    rw [holds.live, found]
    rfl
  refine ⟨ret, ?_, fun first one second other unlike => ?_, fun a b => ?_⟩
  · rw [mergeAll, run]
    simp [bind_eq_bind, copied]
  · obtain ⟨p, found⟩ := (returned first).mp one
    obtain ⟨q, there⟩ := (returned second).mp other
    refine Finset.disjoint_left.mpr fun a here also => unlike ?_
    obtain rfl := holds.unique_owner ⟨first, found, here⟩ ⟨second, there, also⟩
    exact Option.some.inj (found.symm.trans there)
  · rw [← holds.joined]
    constructor
    · rintro ⟨group, inside, first, second⟩
      obtain ⟨p, found⟩ := (returned group).mp inside
      exact ⟨p, ⟨group, found, first⟩, group, found, second⟩
    · rintro ⟨p, ⟨group, found, first⟩, other, also, second⟩
      obtain rfl := Option.some.inj (found.symm.trans also)
      exact ⟨group, (returned group).mpr ⟨p, found⟩, first, second⟩

end Runs

end DogeCash.Components
