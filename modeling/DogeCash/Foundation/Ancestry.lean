import Mathlib.Data.List.Pairwise
import Mathlib.Data.List.TakeWhile

/-! # Ancestors along parent pointers

A partial function gives every element its parent. `climb` follows it a number of times
and `lineage` lists the elements met on the way. Where the parent of an element is one
lower than the element, the lineage is exactly the set of ancestors, and an ancestor is
determined by its height.
-/

namespace DogeCash

variable {α : Type*} {parent : α → Option α} {a b c p : α}

/-- `a` is `b` or an ancestor of `b`. -/
def IsAncestor (parent : α → Option α) (a b : α) : Prop :=
  Relation.ReflTransGen (fun child above => parent child = some above) b a

def climb (parent : α → Option α) : ℕ → α → Option α
  | 0, b => some b
  | n + 1, b => (parent b).bind (climb parent n)

/-- An element followed by its ancestors, up to a number of generations. -/
def lineage (parent : α → Option α) : ℕ → α → List α
  | 0, b => [b]
  | n + 1, b =>
    b ::
      match parent b with
      | none => []
      | some p => lineage parent n p

namespace IsAncestor

@[refl] theorem refl (parent : α → Option α) (b : α) : IsAncestor parent b b :=
  Relation.ReflTransGen.refl

theorem trans (lower : IsAncestor parent a b) (upper : IsAncestor parent b c) :
    IsAncestor parent a c :=
  Relation.ReflTransGen.trans upper lower

theorem of_parent (above : parent b = some p) : IsAncestor parent p b :=
  Relation.ReflTransGen.single above

theorem iff_parent :
    IsAncestor parent a b ↔ a = b ∨ ∃ p, parent b = some p ∧ IsAncestor parent a p := by
  constructor
  · intro ancestor
    rcases Relation.ReflTransGen.cases_head ancestor with same | ⟨p, above, rest⟩
    · exact .inl same.symm
    · exact .inr ⟨p, above, rest⟩
  · rintro (rfl | ⟨p, above, rest⟩)
    · exact refl parent a
    · exact rest.trans (of_parent above)

theorem total (first : IsAncestor parent a c) (second : IsAncestor parent b c) :
    IsAncestor parent a b ∨ IsAncestor parent b a := by
  have unique : Relator.RightUnique (fun child above => parent child = some above) := by
    intro child above other first second
    exact Option.some.inj (first.symm.trans second)
  rcases Relation.ReflTransGen.total_of_right_unique unique first second with higher | lower
  · exact .inr higher
  · exact .inl lower

theorem induct (property : α → Prop) (ancestor : IsAncestor parent a b) (start : property b)
    (up : ∀ child above, parent child = some above → property child → property above) :
    property a := by
  induction ancestor with
  | refl => exact start
  | tail _ above ih => exact up _ _ above ih

theorem congr {other : α → Option α} (ancestor : IsAncestor parent a b)
    (same : ∀ x, IsAncestor parent x b → other x = parent x) : IsAncestor other a b := by
  induction ancestor using Relation.ReflTransGen.head_induction_on with
  | refl => exact refl other a
  | @head child above link rest ih =>
    have here : other child = some above := by
      rw [same child (refl parent child), link]
    refine iff_parent.mpr (.inr ⟨above, here, ih fun x higher => ?_⟩)
    exact same x (higher.trans (of_parent link))

end IsAncestor

variable {n : ℕ} {items : List α}

theorem isAncestor_of_climb (found : climb parent n b = some a) : IsAncestor parent a b := by
  induction n generalizing b with
  | zero =>
    cases found
    exact .refl parent a
  | succ n ih =>
    obtain ⟨p, above, rest⟩ := Option.bind_eq_some_iff.mp found
    exact (ih rest).trans (.of_parent above)

theorem isAncestor_of_mem_lineage (mem : a ∈ lineage parent n b) : IsAncestor parent a b := by
  induction n generalizing b with
  | zero =>
    cases List.mem_singleton.mp mem
    exact .refl parent a
  | succ n ih =>
    rcases List.mem_cons.mp mem with rfl | higher
    · exact .refl parent a
    · cases above : parent b with
      | none =>
        simp only [above, List.not_mem_nil] at higher
      | some p =>
        simp only [above] at higher
        exact (ih higher).trans (.of_parent above)

theorem lineage_pairwise (parent : α → Option α) (n : ℕ) (b : α) :
    (lineage parent n b).Pairwise fun x y => IsAncestor parent y x := by
  induction n generalizing b with
  | zero => exact List.pairwise_singleton _ b
  | succ n ih =>
    cases above : parent b with
    | none =>
      simp only [lineage, above]
      exact List.pairwise_singleton _ b
    | some p =>
      simp only [lineage, above]
      refine List.pairwise_cons.mpr ⟨fun x mem => ?_, ih p⟩
      exact (isAncestor_of_mem_lineage mem).trans (.of_parent above)

theorem lineage_congr {other : α → Option α}
    (same : ∀ x, IsAncestor parent x b → other x = parent x) (n : ℕ) :
    lineage other n b = lineage parent n b := by
  induction n generalizing b with
  | zero => rfl
  | succ n ih =>
    have here := same b (.refl parent b)
    cases above : parent b with
    | none => simp only [lineage, here, above]
    | some p =>
      have rest := ih fun x higher => same x (IsAncestor.trans higher (.of_parent above))
      simp only [lineage, here, above, rest]

/-- Where a property passes from later to earlier elements, `takeWhile` keeps all elements
that have it. -/
theorem mem_takeWhile_iff {property : α → Bool}
    (passes : items.Pairwise fun x y => property y = true → property x = true) :
    a ∈ items.takeWhile property ↔ a ∈ items ∧ property a = true := by
  induction items with
  | nil => simp
  | cons first rest ih =>
    obtain ⟨earlier, later⟩ := List.pairwise_cons.mp passes
    by_cases holds : property first = true
    · rw [List.takeWhile_cons_of_pos holds, List.mem_cons, List.mem_cons, ih later]
      constructor
      · rintro (rfl | ⟨mem, here⟩)
        · exact ⟨.inl rfl, holds⟩
        · exact ⟨.inr mem, here⟩
      · rintro ⟨rfl | mem, here⟩
        · exact .inl rfl
        · exact .inr ⟨mem, here⟩
    · rw [List.takeWhile_cons_of_neg holds]
      constructor
      · intro empty
        cases empty
      · rintro ⟨mem, here⟩
        rcases List.mem_cons.mp mem with rfl | mem
        · exact absurd here holds
        · exact absurd (earlier a mem here) holds

theorem related_of_mem_takeWhile_ne [DecidableEq α] {related : α → α → Prop}
    (pairs : items.Pairwise related) (mem : b ∈ items) (before : a ∈ items.takeWhile (· ≠ b)) :
    related a b := by
  rw [← List.takeWhile_append_dropWhile (p := (· ≠ b)) (l := items)] at pairs mem
  have later : b ∈ items.dropWhile (· ≠ b) := by
    refine (List.mem_append.mp mem).resolve_left fun early => ?_
    have ne := List.mem_takeWhile_imp early
    simp at ne
  exact (List.pairwise_append.mp pairs).2.2 a before b later

section Heights

variable {height : α → ℕ}

section

variable (grows : ∀ b p, parent b = some p → height b = height p + 1)
include grows

theorem IsAncestor.height_le (ancestor : IsAncestor parent a b) : height a ≤ height b := by
  refine ancestor.induct (fun x => height x ≤ height b) (Nat.le_refl _) ?_
  intro child above link below
  have := grows child above link
  omega

theorem IsAncestor.eq_of_height (ancestor : IsAncestor parent a b) (same : height a = height b) :
    a = b := by
  rcases iff_parent.mp ancestor with rfl | ⟨p, above, rest⟩
  · rfl
  · have lower := rest.height_le grows
    have := grows b p above
    omega

theorem climb_eq_some_iff :
    (height a ≤ height b ∧ climb parent (height b - height a) b = some a) ↔
      IsAncestor parent a b := by
  constructor
  · rintro ⟨-, found⟩
    exact isAncestor_of_climb found
  · intro ancestor
    refine ⟨ancestor.height_le grows, ?_⟩
    induction ancestor using Relation.ReflTransGen.head_induction_on with
    | refl =>
      rw [Nat.sub_self]
      rfl
    | @head child above link rest ih =>
      have grown := grows child above link
      have lower := IsAncestor.height_le grows (show IsAncestor parent a above from rest)
      have steps : height child - height a = height above - height a + 1 := by omega
      rw [steps, climb, link, Option.bind_some, ih]

theorem mem_lineage_iff : a ∈ lineage parent (height b) b ↔ IsAncestor parent a b := by
  refine ⟨isAncestor_of_mem_lineage, fun ancestor => ?_⟩
  induction ancestor using Relation.ReflTransGen.head_induction_on with
  | refl =>
    cases height a with
    | zero => exact List.mem_singleton.mpr rfl
    | succ n => exact List.mem_cons_self
  | @head child above link rest ih =>
    rw [grows child above link]
    simp only [lineage, link]
    exact List.mem_cons_of_mem _ ih

theorem lineage_of_parent (above : parent b = some p) :
    lineage parent (height b) b = b :: lineage parent (height p) p := by
  rw [grows b p above]
  simp only [lineage, above]

end

theorem lineage_of_root (root : parent b = none) (n : ℕ) : lineage parent n b = [b] := by
  cases n with
  | zero => rfl
  | succ n => simp only [lineage, root]

end Heights

/-! ## Parents first -/

/-- Every element of a list is new and comes after its parent, which may also be among the elements
that came before the list. -/
def ParentsFirst (parent : α → Option α) : List α → List α → Prop
  | _, [] => True
  | done, b :: rest =>
    (b ∉ done ∧ ∀ p, parent b = some p → p ∈ done) ∧ ParentsFirst parent (done ++ [b]) rest

namespace ParentsFirst

theorem of_sorted {height : α → ℤ}
    (grows : ∀ b p, parent b = some p → height b = height p + 1) {done items : List α}
    (distinct : (done ++ items).Nodup)
    (closed : ∀ b ∈ items, ∀ p, parent b = some p → p ∈ done ++ items)
    (sorted : items.Pairwise fun first second => height first ≤ height second) :
    ParentsFirst parent done items := by
  induction items generalizing done with
  | nil => trivial
  | cons b rest ih =>
    obtain ⟨lowest, sorted⟩ := List.pairwise_cons.mp sorted
    have split := List.append_cons done b rest
    refine ⟨⟨?_, fun p above => ?_⟩, ih (split ▸ distinct) ?_ sorted⟩
    · exact fun before => (List.nodup_append.mp distinct).2.2 b before b List.mem_cons_self rfl
    · have lower := grows b p above
      rcases List.mem_append.mp (closed b List.mem_cons_self p above) with before | behind
      · exact before
      · rcases List.mem_cons.mp behind with rfl | later
        · omega
        · have higher := lowest p later
          omega
    · intro c mem p above
      exact split ▸ closed c (List.mem_cons_of_mem _ mem) p above

theorem foldl {ι β : Type*} {key : ι → α} {step : β → ι → β} (invariant : List α → β → Prop)
    {done : List α} {items : List ι} {state : β}
    (first : ParentsFirst parent done (items.map key))
    (keeps : ∀ done, ∀ item ∈ items, ∀ state, key item ∉ done →
      (∀ p, parent (key item) = some p → p ∈ done) → invariant done state →
      invariant (done ++ [key item]) (step state item))
    (start : invariant done state) :
    invariant (done ++ items.map key) (items.foldl step state) := by
  induction items generalizing done state with
  | nil =>
    rw [List.map_nil, List.append_nil]
    exact start
  | cons item rest ih =>
    obtain ⟨⟨fresh, above⟩, later⟩ := first
    rw [List.map_cons, List.append_cons]
    refine ih later (fun done other mem => ?_) ?_
    · exact keeps done other (List.mem_cons_of_mem _ mem)
    · exact keeps done item List.mem_cons_self state fresh above start

end ParentsFirst

end DogeCash
