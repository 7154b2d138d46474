import DogeCash.Foundation.MerkleLevels
import DogeCash.Validation.MerkleMutation

/-! # Merkle branches

On the way to the root `MerkleComputation` collects the siblings of the subtrees with one
requested leaf. While the leaves are added, `matchlevel` is the highest level at which the
number of leaves and the requested position differ, and the branch so far opens the subtree
of that level; the sweep keeps this for the subtree with the last leaf. At the end the branch
opens the root.
-/

namespace DogeCash.MerkleBranch

open MerkleTree
open Option (bind_eq_some_iff bind_map map_eq_some_iff map_map some_ne_none)

variable {α : Type*}

/-- The variables of the loops of `MerkleComputation` over the levels. -/
structure Climb (α : Type*) where
  level : ℕ
  h : α
  mutated : Bool
  matchh : Bool
  branch : List α

/-- What `MerkleComputation` keeps from leaf to leaf. Without a match `matchlevel` is -1 in
the source. -/
structure State (α : Type*) where
  count : ℕ
  inner : ℕ → α
  matchlevel : Option ℕ
  mutated : Bool
  branch : List α

section Computation

variable (hash : α → α → α) (pbranch : Bool)

/-- The subtree is combined with the one to its left. If one of them has the requested leaf,
the other one goes to the branch. -/
def Climb.combine (matchlevel : Option ℕ) (inner : ℕ → α) (climb : Climb α) : Climb α :=
  let combined : Climb α :=
    { climb with level := climb.level + 1, h := hash (inner climb.level) climb.h }
  if pbranch then
    if climb.matchh then { combined with branch := climb.branch ++ [inner climb.level] }
    else if matchlevel = some climb.level then
      { combined with branch := climb.branch ++ [climb.h], matchh := true }
    else combined
  else combined

def Climb.compare [DecidableEq α] (inner : ℕ → α) (climb : Climb α) : Climb α :=
  { climb with mutated := climb.mutated || decide (inner climb.level = climb.h) }

/-- The subtree is combined with itself. -/
def Climb.double (climb : Climb α) : Climb α :=
  { climb with
    level := climb.level + 1
    h := hash climb.h climb.h
    branch := if pbranch && climb.matchh then climb.branch ++ [climb.h] else climb.branch }

/-- A loop over the low bits of `count` that are zero, with the number of levels that a shift
still allows. -/
def climbZeros (step : Climb α → Climb α) (count : ℕ) : ℕ → Climb α → Option (Climb α)
  | 0, _ => none
  | left + 1, climb =>
    if count.testBit climb.level then some climb else climbZeros step count left (step climb)

/-- One round of the loop of `MerkleComputation` over the leaves. -/
def addLeaf [DecidableEq α] (branchpos : ℕ) (state : State α) (leaf : α) : Option (State α) :=
  let count := (state.count + 1) % 2 ^ 32
  let start : Climb α := ⟨0, leaf, state.mutated, decide (state.count = branchpos), state.branch⟩
  let step := fun climb : Climb α =>
    (climb.compare state.inner).combine hash pbranch state.matchlevel state.inner
  (climbZeros step count 32 start).map fun climb =>
    { count := count
      inner := Function.update state.inner climb.level climb.h
      matchlevel := if climb.matchh then some climb.level else state.matchlevel
      mutated := climb.mutated
      branch := climb.branch }

/-- The sweep of `MerkleComputation` up the right branch, for some number of rounds. -/
def sweepUp (matchlevel : Option ℕ) (inner : ℕ → α) : ℕ → ℕ → Climb α → Option (Climb α)
  | 0, _, _ => none
  | rounds + 1, count, climb =>
    if count = 2 ^ climb.level then some climb
    else
      let next := (count + 2 ^ climb.level) % 2 ^ 32
      (climbZeros (Climb.combine hash pbranch matchlevel inner) next (31 - climb.level)
        (climb.double hash pbranch)).bind fun climb => sweepUp matchlevel inner rounds next climb

/-- `MerkleComputation`: the root, `mutated` and the branch, which is collected if `pbranch` is
not null. -/
def merkleComputation [DecidableEq α] [Inhabited α] (leaves : List α) (branchpos : ℕ) :
    Option (α × Bool × List α) :=
  if leaves = [] then some (default, false, [])
  else
    (leaves.foldlM (addLeaf hash pbranch branchpos)
        ⟨0, fun _ => default, none, false, []⟩).bind fun state =>
      (skipLevels state.count 32 0).bind fun level =>
        (sweepUp hash pbranch state.matchlevel state.inner 32 state.count
          ⟨level, state.inner level, state.mutated, decide (state.matchlevel = some level),
            state.branch⟩).map fun climb => (climb.h, climb.mutated, climb.branch)

def computeMerkleBranch [DecidableEq α] [Inhabited α] (leaves : List α) (position : ℕ) :
    Option (List α) :=
  (merkleComputation hash true leaves position).map fun result => result.2.2

def computeMerkleRootFromBranch (leaf : α) : List α → ℕ → α
  | [], _ => leaf
  | sibling :: rest, nIndex =>
    computeMerkleRootFromBranch (if nIndex % 2 = 1 then hash sibling leaf else hash leaf sibling)
      rest (nIndex / 2)

end Computation

variable {hash : α → α → α} {pbranch : Bool}

/-! ## Without the branch -/

section Forget

theorem Climb.combine_level (matchlevel : Option ℕ) (inner : ℕ → α) (climb : Climb α) :
    (climb.combine hash pbranch matchlevel inner).level = climb.level + 1 := by
  unfold Climb.combine
  split_ifs <;> rfl

theorem Climb.combine_h (matchlevel : Option ℕ) (inner : ℕ → α) (climb : Climb α) :
    (climb.combine hash pbranch matchlevel inner).h = hash (inner climb.level) climb.h := by
  unfold Climb.combine
  split_ifs <;> rfl

theorem Climb.combine_mutated (matchlevel : Option ℕ) (inner : ℕ → α) (climb : Climb α) :
    (climb.combine hash pbranch matchlevel inner).mutated = climb.mutated := by
  unfold Climb.combine
  split_ifs <;> rfl

variable (hash pbranch) in
theorem climbZeros_combine (matchlevel : Option ℕ) (inner : ℕ → α) (count left : ℕ)
    (climb : Climb α) :
    (climbZeros (Climb.combine hash pbranch matchlevel inner) count left climb).map
        (fun climb => (climb.level, climb.h, climb.mutated)) =
      (propagate hash count inner left climb.level climb.h).map
        fun (level, h) => (level, h, climb.mutated) := by
  induction left generalizing climb with
  | zero => rfl
  | succ left ih =>
    unfold climbZeros propagate
    split_ifs
    · rfl
    · rw [ih, Climb.combine_level, Climb.combine_h, Climb.combine_mutated]

variable (hash pbranch) in
theorem sweepUp_forget (matchlevel : Option ℕ) (inner : ℕ → α) (rounds count : ℕ)
    (climb : Climb α) :
    (sweepUp hash pbranch matchlevel inner rounds count climb).map
        (fun climb => (climb.h, climb.mutated)) =
      (DogeCash.sweepUp hash inner rounds count climb.level climb.h).map
        fun h => (h, climb.mutated) := by
  induction rounds generalizing count climb with
  | zero => rfl
  | succ rounds ih =>
    unfold sweepUp DogeCash.sweepUp
    split_ifs
    · rfl
    · let next := (count + 2 ^ climb.level) % 2 ^ 32
      let climbed := climbZeros (Climb.combine hash pbranch matchlevel inner) next
        (31 - climb.level) (climb.double hash pbranch)
      have forgotten := climbZeros_combine hash pbranch matchlevel inner next (31 - climb.level)
        (climb.double hash pbranch)
      calc (climbed.bind fun climb => sweepUp hash pbranch matchlevel inner rounds next climb).map
            (fun climb => (climb.h, climb.mutated))
          = climbed.bind fun climb =>
              (DogeCash.sweepUp hash inner rounds next climb.level climb.h).map
                fun h => (h, climb.mutated) := by
            rw [Option.map_bind]
            exact congrArg _ (funext fun climb => ih next climb)
        _ = (climbed.map fun climb => (climb.level, climb.h, climb.mutated)).bind
              fun climb =>
                (DogeCash.sweepUp hash inner rounds next climb.1 climb.2.1).map
                  fun h => (h, climb.2.2) := by
            rw [bind_map]
            rfl
        _ = _ := by
            rw [forgotten, bind_map, Option.map_bind]
            rfl

variable [DecidableEq α]

variable (hash pbranch) in
theorem climbZeros_compare (matchlevel : Option ℕ) (inner : ℕ → α) (count left : ℕ)
    (climb : Climb α) :
    (climbZeros (fun climb => (climb.compare inner).combine hash pbranch matchlevel inner) count
        left climb).map (fun climb => (climb.level, climb.h, climb.mutated)) =
      combineInner hash count inner left climb.level climb.h climb.mutated := by
  induction left generalizing climb with
  | zero => rfl
  | succ left ih =>
    unfold climbZeros combineInner
    split_ifs
    · rfl
    · rw [ih, Climb.combine_level, Climb.combine_h, Climb.combine_mutated]
      rfl

def State.forget (state : State α) : MerkleState α := ⟨state.count, state.inner, state.mutated⟩

variable (hash pbranch) in
theorem addLeaf_forget (branchpos : ℕ) (state : State α) (leaf : α) :
    (addLeaf hash pbranch branchpos state leaf).map State.forget =
      DogeCash.addLeaf hash state.forget leaf := by
  have forgotten := climbZeros_compare hash pbranch state.matchlevel state.inner
    ((state.count + 1) % 2 ^ 32) 32
    ⟨0, leaf, state.mutated, decide (state.count = branchpos), state.branch⟩
  simp only [addLeaf, DogeCash.addLeaf, State.forget, map_map]
  rw [← forgotten, map_map]
  rfl

variable (hash pbranch) in
theorem foldlM_addLeaf_forget (branchpos : ℕ) (leaves : List α) (state : State α) :
    (leaves.foldlM (addLeaf hash pbranch branchpos) state).map State.forget =
      leaves.foldlM (DogeCash.addLeaf hash) state.forget := by
  induction leaves generalizing state with
  | nil => rfl
  | cons leaf rest ih =>
    rw [List.foldlM_cons, List.foldlM_cons, ← addLeaf_forget hash pbranch branchpos]
    calc ((addLeaf hash pbranch branchpos state leaf).bind
            fun next => rest.foldlM (addLeaf hash pbranch branchpos) next).map State.forget
        = (addLeaf hash pbranch branchpos state leaf).bind
            fun next => rest.foldlM (DogeCash.addLeaf hash) next.forget := by
          rw [Option.map_bind]
          exact congrArg _ (funext ih)
      _ = ((addLeaf hash pbranch branchpos state leaf).map State.forget).bind
            fun next => rest.foldlM (DogeCash.addLeaf hash) next := by
          rw [bind_map]
          rfl

variable (hash pbranch) in
/-- **The result without the branch.** Neither the root nor `mutated` depends on the requested
position. -/
theorem merkleComputation_forget [Inhabited α] (leaves : List α) (branchpos : ℕ) :
    (merkleComputation hash pbranch leaves branchpos).map (fun result => (result.1, result.2.1)) =
      DogeCash.merkleComputation hash leaves := by
  unfold merkleComputation DogeCash.merkleComputation
  split_ifs
  · rfl
  · let start : State α := ⟨0, fun _ => default, none, false, []⟩
    let sweep := fun state : MerkleState α => (skipLevels state.count 32 0).bind fun level =>
      (DogeCash.sweepUp hash state.inner 32 state.count level (state.inner level)).map
        fun root => (root, state.mutated)
    calc _ = (leaves.foldlM (addLeaf hash pbranch branchpos) start).bind
              fun state => sweep state.forget := by
          rw [Option.map_bind]
          refine congrArg _ (funext fun state => ?_)
          rw [Function.comp_apply, Option.map_bind]
          refine congrArg _ (funext fun level => ?_)
          rw [Function.comp_apply, map_map]
          exact sweepUp_forget hash pbranch _ _ _ _ _
      _ = ((leaves.foldlM (addLeaf hash pbranch branchpos) start).map State.forget).bind sweep := by
          rw [bind_map]
          rfl
      _ = _ := by
          rw [foldlM_addLeaf_forget]
          rfl

end Forget

/-! ## Opening a subtree -/

variable (hash) in
/-- A branch leads from a leaf to the root of a subtree of some level. -/
structure Opens (leaf : α) (position : ℕ) (branch : List α) (level : ℕ) (h : α) : Prop where
  length : branch.length = level
  computes : computeMerkleRootFromBranch hash leaf branch position = h

theorem div_two_pow_succ (n level : ℕ) : n / 2 ^ (level + 1) = n / 2 ^ level / 2 := by
  rw [Nat.pow_succ, Nat.div_div_eq_div_mul]

theorem computeMerkleRootFromBranch_concat (leaf sibling : α) (branch : List α) (position : ℕ) :
    computeMerkleRootFromBranch hash leaf (branch ++ [sibling]) position =
      if position / 2 ^ branch.length % 2 = 1 then
        hash sibling (computeMerkleRootFromBranch hash leaf branch position)
      else hash (computeMerkleRootFromBranch hash leaf branch position) sibling := by
  induction branch generalizing leaf position with
  | nil =>
    rw [List.length_nil, pow_zero, Nat.div_one]
    rfl
  | cons first rest ih =>
    rw [List.length_cons, Nat.pow_succ', ← Nat.div_div_eq_div_mul]
    exact ih _ _

variable {branch : List α} {state : State α} {climb : Climb α}

variable {leaf sibling h : α} {position level : ℕ} {before : List α} {climb final : Climb α}

theorem Opens.right (opens : Opens hash leaf position branch level h)
    (odd : position / 2 ^ level % 2 = 1) :
    Opens hash leaf position (branch ++ [sibling]) (level + 1) (hash sibling h) where
  length := by rw [List.length_append, opens.length, List.length_singleton]
  computes := by
    rw [computeMerkleRootFromBranch_concat, opens.length, if_pos odd, opens.computes]

theorem Opens.left (opens : Opens hash leaf position branch level h)
    (even : position / 2 ^ level % 2 = 0) :
    Opens hash leaf position (branch ++ [sibling]) (level + 1) (hash h sibling) where
  length := by rw [List.length_append, opens.length, List.length_singleton]
  computes := by
    rw [computeMerkleRootFromBranch_concat, opens.length, if_neg (by omega), opens.computes]

/-! ## The level of a position -/

/-- At this level a number of leaves has a complete subtree with a position: it is the highest
one at which the two numbers differ, and there the number of leaves is the larger one. -/
def Splits (position count level : ℕ) : Prop :=
  position / 2 ^ (level + 1) = count / 2 ^ (level + 1) ∧ position / 2 ^ level < count / 2 ^ level

theorem div_two_pow_eq {first second level above : ℕ}
    (same : first / 2 ^ level = second / 2 ^ level) (le : level ≤ above) :
    first / 2 ^ above = second / 2 ^ above := by
  obtain ⟨-, rfl⟩ := Nat.exists_eq_add_of_le le
  rw [Nat.pow_add, ← Nat.div_div_eq_div_mul, ← Nat.div_div_eq_div_mul, same]

theorem Splits.lt {position count level : ℕ} (splits : Splits position count level) :
    position < count :=
  Nat.lt_of_div_lt_div splits.2

theorem splits_succ {position count level other : ℕ} (even : count / 2 ^ level % 2 = 0)
    (complete : count + 1 = (count / 2 ^ level + 1) * 2 ^ level) :
    Splits position (count + 1) other ↔
      (position / 2 ^ level = count / 2 ^ level ∧ other = level) ∨
        (position / 2 ^ level ≠ count / 2 ^ level ∧ Splits position count other) := by
  have next : (count + 1) / 2 ^ level = count / 2 ^ level + 1 := by
    conv_lhs => rw [complete]
    exact Nat.mul_div_cancel _ (Nat.two_pow_pos level)
  have above : count / 2 ^ (level + 1) = (count + 1) / 2 ^ (level + 1) := by
    rw [div_two_pow_succ, div_two_pow_succ, next]
    omega
  -- At this level only the new subtree can have the position.
  have here : Splits position (count + 1) level ↔ position / 2 ^ level = count / 2 ^ level := by
    rw [Splits, div_two_pow_succ, div_two_pow_succ, next]
    omega
  have notHere : ¬Splits position count level := by
    rw [Splits, div_two_pow_succ, div_two_pow_succ]
    omega
  rcases Nat.lt_trichotomy other level with lower | rfl | higher
  · constructor
    · intro splits
      have same := div_two_pow_eq splits.1 lower
      have past : (count + 1) / 2 ^ level * 2 ^ level ≤ position := same ▸ Nat.div_mul_le_self _ _
      rw [next, ← complete] at past
      exact absurd splits.lt (Nat.not_lt.mpr past)
    · intro either
      rcases either with ⟨-, same⟩ | ⟨apart, splits⟩
      · exact absurd same lower.ne
      · exact absurd (div_two_pow_eq splits.1 lower) apart
  · rw [here]
    exact ⟨fun same => Or.inl ⟨same, rfl⟩,
      fun either => either.elim And.left fun splits => absurd splits.2 notHere⟩
  · have quotients : Splits position (count + 1) other ↔ Splits position count other := by
      rw [Splits, Splits, div_two_pow_eq above higher,
        div_two_pow_eq above (Nat.le_succ_of_le higher)]
    rw [quotients]
    constructor
    · intro splits
      exact Or.inr ⟨fun same => splits.2.ne (div_two_pow_eq same higher.le), splits⟩
    · intro either
      rcases either with ⟨-, same⟩ | ⟨-, splits⟩
      · exact absurd same higher.ne'
      · exact splits

/-! ## The branch while leaves are added -/

variable (hash) in
/-- What is known of the requested leaf between the leaves. -/
structure Tracks (leaf : α) (position : ℕ) (state : State α) : Prop where
  matchlevel : ∀ level, state.matchlevel = some level ↔ Splits position state.count level
  opens : ∀ level, Splits position state.count level →
    Opens hash leaf position state.branch level (state.inner level)
  empty : state.count ≤ position → state.branch = []

variable (hash) in
/-- What is known of it while the subtree with the last leaf grows. -/
structure Follows (leaf : α) (position last : ℕ) (before : List α) (climb : Climb α) : Prop where
  matchh : climb.matchh = true ↔ position / 2 ^ climb.level = last / 2 ^ climb.level
  opens : climb.matchh = true → Opens hash leaf position climb.branch climb.level climb.h
  kept : climb.matchh = false → climb.branch = before

variable {leaf : α} {position last : ℕ}

theorem Follows.combine (follows : Follows hash leaf position last state.branch climb)
    (tracks : Tracks hash leaf position state) (odd : last / 2 ^ climb.level % 2 = 1)
    (same : state.count / 2 ^ climb.level = last / 2 ^ climb.level) :
    Follows hash leaf position last state.branch
      (climb.combine hash true state.matchlevel state.inner) := by
  have above : state.count / 2 ^ (climb.level + 1) = last / 2 ^ (climb.level + 1) :=
    div_two_pow_eq same (Nat.le_succ _)
  have splits_iff := tracks.matchlevel climb.level
  rw [Splits, above, same] at splits_iff
  simp only [Climb.combine, if_true]
  by_cases matched : climb.matchh = true
  · -- The leaf is on the right.
    have here := follows.matchh.mp matched
    rw [if_pos matched]
    exact {
      matchh := iff_of_true matched (div_two_pow_eq here (Nat.le_succ _))
      opens := fun _ => (follows.opens matched).right (here ▸ odd)
      kept := fun unmatched => absurd matched (Bool.not_eq_true _ ▸ unmatched) }
  · have unmatched := Bool.eq_false_iff.mpr matched
    have apart := mt follows.matchh.mpr matched
    rw [if_neg matched]
    by_cases found : state.matchlevel = some climb.level
    · -- The leaf is on the left.
      obtain ⟨half, -⟩ := splits_iff.mp found
      have opens := tracks.opens climb.level ((tracks.matchlevel _).mp found)
      rw [← follows.kept unmatched] at opens
      have even : position / 2 ^ climb.level % 2 = 0 := by
        rw [div_two_pow_succ, div_two_pow_succ] at half
        omega
      rw [if_pos found]
      exact {
        matchh := iff_of_true rfl half
        opens := fun _ => opens.left even
        kept := fun impossible => absurd impossible.symm Bool.false_ne_true }
    · have outside := mt splits_iff.mpr found
      rw [if_neg found]
      refine {
        matchh := iff_of_false matched fun half => outside ⟨half, ?_⟩
        opens := fun impossible => absurd impossible matched
        kept := follows.kept }
      rw [div_two_pow_succ, div_two_pow_succ] at half
      omega

theorem Follows.compare [DecidableEq α] (follows : Follows hash leaf position last before climb)
    (inner : ℕ → α) :
    Follows hash leaf position last before (climb.compare inner) :=
  ⟨follows.matchh, follows.opens, follows.kept⟩

/-- The loop over the low bits that are zero stops at the lowest level at which the last leaf
is on the left. -/
theorem follows_climbZeros {step : Climb α → Climb α}
    (level_step : ∀ climb, (step climb).level = climb.level + 1)
    (follows_step : ∀ climb, Follows hash leaf position last state.branch climb →
      last / 2 ^ climb.level % 2 = 1 →
        state.count / 2 ^ climb.level = last / 2 ^ climb.level →
          Follows hash leaf position last state.branch (step climb)) {count left : ℕ}
    (follows : Follows hash leaf position last state.branch climb)
    (same : state.count / 2 ^ climb.level = last / 2 ^ climb.level)
    (reached : count = (last / 2 ^ climb.level + 1) * 2 ^ climb.level)
    (climbed : climbZeros step count left climb = some final) :
    Follows hash leaf position last state.branch final ∧ last / 2 ^ final.level % 2 = 0 ∧
      count = (last / 2 ^ final.level + 1) * 2 ^ final.level ∧ climb.level ≤ final.level := by
  induction left generalizing climb with
  | zero => exact absurd climbed.symm (some_ne_none _)
  | succ left ih =>
    have bit : count.testBit climb.level = decide ((last / 2 ^ climb.level + 1) % 2 = 1) := by
      rw [reached, testBit_mul]
    unfold climbZeros at climbed
    by_cases odd : last / 2 ^ climb.level % 2 = 1
    · have clear : count.testBit climb.level = false := by
        rw [bit, decide_eq_false]
        omega
      rw [clear, if_neg Bool.false_ne_true] at climbed
      have half : last / 2 ^ climb.level + 1 = 2 * (last / 2 ^ (climb.level + 1) + 1) := by
        rw [div_two_pow_succ]
        omega
      have next : count = (last / 2 ^ (climb.level + 1) + 1) * 2 ^ (climb.level + 1) := by
        rw [mul_pow_succ, ← half, reached]
      have above := level_step climb
      rw [← above] at next
      obtain ⟨followsFinal, even, final, higher⟩ := ih (follows_step climb follows odd same)
        (by rw [above]; exact div_two_pow_eq same (Nat.le_succ _)) next climbed
      exact ⟨followsFinal, even, final, by omega⟩
    · have even : last / 2 ^ climb.level % 2 = 0 := by omega
      have set : count.testBit climb.level = true := by
        rw [bit, decide_eq_true]
        omega
      rw [set, if_pos rfl] at climbed
      obtain rfl := Option.some.inj climbed
      exact ⟨follows, even, reached, le_rfl⟩

theorem tracks_addLeaf [DecidableEq α] {state next : State α} {item : α}
    (tracks : Tracks hash leaf position state) (bounded : state.count + 1 < 2 ^ 32)
    (requested : state.count = position → item = leaf)
    (added : addLeaf hash true position state item = some next) :
    Tracks hash leaf position next ∧ next.count = state.count + 1 := by
  unfold addLeaf at added
  rw [Nat.mod_eq_of_lt bounded] at added
  obtain ⟨climb, climbed, rfl⟩ := map_eq_some_iff.mp added
  have start : Follows hash leaf position state.count state.branch
      ⟨0, item, state.mutated, decide (state.count = position), state.branch⟩ := by
    refine ⟨?_, ?_, fun _ => rfl⟩
    · rw [decide_eq_true_eq, pow_zero, Nat.div_one, Nat.div_one, eq_comm]
    · intro here
      have same := of_decide_eq_true here
      exact ⟨by rw [tracks.empty same.le, List.length_nil], by
        rw [tracks.empty same.le, requested same, computeMerkleRootFromBranch]⟩
  have levels : ∀ climb : Climb α, ((climb.compare state.inner).combine hash true
      state.matchlevel state.inner).level = climb.level + 1 :=
    fun climb => Climb.combine_level _ _ _
  obtain ⟨follows, even, complete, -⟩ := follows_climbZeros levels
    (fun climb follows odd same => (follows.compare _).combine tracks odd same) start rfl
    (by rw [pow_zero, Nat.div_one, Nat.mul_one]) climbed
  have splits : ∀ level, Splits position (state.count + 1) level ↔
      (climb.matchh = true ∧ level = climb.level) ∨
        (¬climb.matchh = true ∧ Splits position state.count level) := by
    intro level
    rw [follows.matchh]
    exact splits_succ even complete
  refine ⟨⟨?_, ?_, ?_⟩, rfl⟩
  · intro level
    rw [splits level, ← tracks.matchlevel level]
    by_cases matched : climb.matchh = true
    · rw [if_pos matched, Option.some_inj]
      exact ⟨fun same => Or.inl ⟨matched, same.symm⟩,
        fun either => either.elim (fun here => here.2.symm) fun other => absurd matched other.1⟩
    · rw [if_neg matched]
      exact ⟨fun found => Or.inr ⟨matched, found⟩,
        fun either => either.elim (fun here => absurd here.1 matched) And.right⟩
  · intro level split
    rcases (splits level).mp split with ⟨matched, rfl⟩ | ⟨unmatched, before⟩
    · change Opens hash leaf position climb.branch climb.level
        (Function.update state.inner climb.level climb.h climb.level)
      rw [Function.update_self]
      exact follows.opens matched
    · have other : level ≠ climb.level := by
        intro same
        rw [same, Splits, div_two_pow_succ, div_two_pow_succ] at before
        omega
      change Opens hash leaf position climb.branch level
        (Function.update state.inner climb.level climb.h level)
      rw [Function.update_of_ne other, follows.kept (Bool.eq_false_iff.mpr unmatched)]
      exact tracks.opens level before
  · intro outside
    have unmatched : climb.matchh = false := by
      refine Bool.eq_false_iff.mpr fun matched => ?_
      exact absurd ((splits climb.level).mpr (Or.inl ⟨matched, rfl⟩)).lt (Nat.not_lt.mpr outside)
    exact (follows.kept unmatched).trans (tracks.empty (Nat.le_of_succ_le outside))

theorem tracks_foldlM [DecidableEq α] {state final : State α} (before rest : List α)
    (tracks : Tracks hash leaf position state) (count : state.count = before.length)
    (bounded : before.length + rest.length < 2 ^ 32)
    (requested : (before ++ rest)[position]? = some leaf)
    (added : rest.foldlM (addLeaf hash true position) state = some final) :
    Tracks hash leaf position final ∧ final.count = before.length + rest.length := by
  induction rest generalizing before state with
  | nil =>
    obtain rfl := Option.some.inj added
    exact ⟨tracks, count⟩
  | cons item rest ih =>
    rw [List.length_cons] at bounded
    obtain ⟨next, addedItem, added⟩ := bind_eq_some_iff.mp added
    have here : state.count = position → item = leaf := by
      intro same
      rw [← same, count, List.getElem?_append_right le_rfl, Nat.sub_self] at requested
      exact Option.some.inj requested
    obtain ⟨tracksNext, countNext⟩ := tracks_addLeaf tracks (by omega) here addedItem
    have length : (before ++ [item]).length = before.length + 1 := by
      rw [List.length_append, List.length_singleton]
    obtain ⟨result, total⟩ := ih (before ++ [item]) tracksNext (by omega) (by omega)
      (by rwa [List.append_assoc]) added
    refine ⟨result, ?_⟩
    rw [total, length, List.length_cons]
    omega

/-! ## The branch in the sweep -/

theorem Follows.double (follows : Follows hash leaf position last before climb)
    (within : position ≤ last) (even : last / 2 ^ climb.level % 2 = 0) :
    Follows hash leaf position last before (climb.double hash true) := by
  have le : position / 2 ^ climb.level ≤ last / 2 ^ climb.level := Nat.div_le_div_right within
  have same : position / 2 ^ (climb.level + 1) = last / 2 ^ (climb.level + 1) ↔
      position / 2 ^ climb.level = last / 2 ^ climb.level := by
    rw [div_two_pow_succ, div_two_pow_succ]
    omega
  refine ⟨follows.matchh.trans same.symm, ?_, ?_⟩
  · intro matched
    change climb.matchh = true at matched
    have here := follows.matchh.mp matched
    simp only [Climb.double, matched, Bool.and_self, if_true]
    exact (follows.opens matched).left (here ▸ even)
  · intro unmatched
    change climb.matchh = false at unmatched
    simp only [Climb.double, unmatched, Bool.and_false]
    exact follows.kept unmatched

theorem opens_sweepUp (tracks : Tracks hash leaf position state) (within : position ≤ last)
    (total : state.count = last + 1) (bounded : state.count ≤ 2 ^ 31) {rounds count : ℕ}
    (follows : Follows hash leaf position last state.branch climb)
    (even : last / 2 ^ climb.level % 2 = 0)
    (reached : count = (last / 2 ^ climb.level + 1) * 2 ^ climb.level)
    (swept : sweepUp hash true state.matchlevel state.inner rounds count climb = some final) :
    Opens hash leaf position final.branch final.level final.h := by
  induction rounds generalizing count climb with
  | zero => exact absurd swept.symm (some_ne_none _)
  | succ rounds ih =>
    have positive : 0 < 2 ^ climb.level := Nat.two_pow_pos _
    have lower : last / 2 ^ climb.level * 2 ^ climb.level ≤ last := Nat.div_mul_le_self _ _
    rw [Nat.succ_mul] at reached
    unfold sweepUp at swept
    by_cases top : count = 2 ^ climb.level
    · -- The subtree has all leaves.
      rw [if_pos top] at swept
      obtain rfl := Option.some.inj swept
      have first : last / 2 ^ climb.level = 0 := by
        refine (Nat.mul_eq_zero.mp ?_).resolve_right positive.ne'
        omega
      have le : position / 2 ^ climb.level ≤ last / 2 ^ climb.level := Nat.div_le_div_right within
      exact follows.opens (follows.matchh.mpr ((Nat.le_zero.mp (first ▸ le)).trans first.symm))
    · rw [if_neg top] at swept
      obtain ⟨climbed, climbs, swept⟩ := bind_eq_some_iff.mp swept
      have doubled : last / 2 ^ climb.level = 2 * (last / 2 ^ (climb.level + 1)) := by
        rw [div_two_pow_succ]
        omega
      have next : count + 2 ^ climb.level =
          (last / 2 ^ (climb.level + 1) + 1) * 2 ^ (climb.level + 1) := by
        rw [mul_pow_succ, Nat.mul_succ, ← doubled, reached]
        ring
      have two : 2 * 2 ^ climb.level ≤ last := by
        refine le_trans (Nat.mul_le_mul_right _ ?_) lower
        have nonzero : last / 2 ^ climb.level ≠ 0 := by
          intro zero
          rw [zero, Nat.zero_mul, Nat.zero_add] at reached
          exact top reached
        omega
      rw [Nat.mod_eq_of_lt (by omega), next] at climbs swept
      have same : state.count / 2 ^ (climb.level + 1) = last / 2 ^ (climb.level + 1) := by
        refine le_antisymm ?_ (Nat.div_le_div_right (by omega))
        have ends : last < last / 2 ^ climb.level * 2 ^ climb.level + 2 ^ climb.level :=
          Nat.lt_div_mul_add positive
        apply Nat.lt_succ_iff.mp
        apply Nat.div_lt_of_lt_mul
        rw [Nat.mul_comm, ← next]
        omega
      have levels : ∀ climb : Climb α, (climb.combine hash true state.matchlevel
          state.inner).level = climb.level + 1 :=
        fun climb => Climb.combine_level _ _ _
      obtain ⟨followsNext, evenNext, reachedNext, -⟩ := follows_climbZeros levels
        (fun climb follows odd same => follows.combine tracks odd same)
        (follows.double within even) same rfl climbs
      exact ih followsNext evenNext reachedNext swept

variable (hash leaf position) in
theorem tracks_nil (inner : ℕ → α) : Tracks hash leaf position ⟨0, inner, none, false, []⟩ where
  matchlevel _ := iff_of_false (some_ne_none _).symm fun splits => Nat.not_lt_zero _ splits.lt
  opens _ splits := absurd splits.lt (Nat.not_lt_zero _)
  empty _ := rfl

/-- **Branches open the root.** Recomputing from a leaf and its branch gives the root that the
branch was collected for. -/
theorem opens_merkleComputation [DecidableEq α] [Inhabited α] {leaves : List α}
    (bounded : leaves.length ≤ 2 ^ 31) (requested : leaves[position]? = some leaf) {root : α}
    {mutated : Bool}
    (computed : merkleComputation hash true leaves position = some (root, mutated, branch)) :
    computeMerkleRootFromBranch hash leaf branch position = root := by
  obtain ⟨inside, -⟩ := List.getElem?_eq_some_iff.mp requested
  have filled : leaves ≠ [] := List.length_pos_iff.mp (Nat.zero_lt_of_lt inside)
  rw [merkleComputation, if_neg filled] at computed
  obtain ⟨state, added, computed⟩ := bind_eq_some_iff.mp computed
  obtain ⟨level, skipped, computed⟩ := bind_eq_some_iff.mp computed
  obtain ⟨final, swept, result⟩ := map_eq_some_iff.mp computed
  obtain ⟨tracks, count⟩ := tracks_foldlM [] leaves (tracks_nil hash leaf position fun _ => default)
    rfl (by rw [List.length_nil]; omega) requested added
  rw [List.length_nil, Nat.zero_add] at count
  obtain ⟨top, q, lowest, split⟩ := skipLevels_spec 32 0 state.count rfl
    (by rw [pow_zero, Nat.mul_one]) (by omega) (by omega)
  obtain rfl := Option.some.inj (lowest.symm.trans skipped)
  have positive : 0 < 2 ^ top := Nat.two_pow_pos top
  have last : (state.count - 1) / 2 ^ top = 2 * q := by
    rw [split, Nat.succ_mul, Nat.add_sub_assoc positive, Nat.mul_comm, Nat.mul_add_div positive,
      Nat.div_eq_of_lt (by omega), Nat.add_zero]
  have whole : state.count / 2 ^ top = 2 * q + 1 := by
    rw [split]
    exact Nat.mul_div_cancel _ positive
  have follows : Follows hash leaf position (state.count - 1) state.branch
      ⟨top, state.inner top, state.mutated, decide (state.matchlevel = some top),
        state.branch⟩ := by
    refine ⟨?_, ?_, fun _ => rfl⟩
    · refine decide_eq_true_iff.trans ((tracks.matchlevel top).trans ?_)
      change _ ↔ position / 2 ^ top = (state.count - 1) / 2 ^ top
      rw [Splits, div_two_pow_succ, div_two_pow_succ, whole, last]
      omega
    · intro matched
      exact tracks.opens top ((tracks.matchlevel top).mp (of_decide_eq_true matched))
  have opens := opens_sweepUp tracks (by omega) (by omega) (by omega) follows
    (by rw [last, Nat.mul_mod_right]) (by rw [last]; exact split) swept
  obtain ⟨rfl, -, rfl⟩ := (Prod.mk.injEq _ _ _ _ ▸ result : _ ∧ _)
  exact opens.computes

/-! ## The result -/

section Result

variable [DecidableEq α] [Inhabited α]

/-- `MerkleComputation` computes the root of the levels, for every requested position. It
reports a mutation exactly if at some level two siblings with complete subtrees are equal, and
without collisions exactly if at some level two distinct siblings are. The branch of a leaf
opens the root. -/
theorem merkleComputation_by_levels (hash : α → α → α) {leaves : List α} (filled : leaves ≠ [])
    (bounded : leaves.length ≤ 2 ^ 31) :
    ∃ mutated, computeMerkleRoot hash leaves = some (rootByLevels hash leaves, mutated) ∧
      (∀ pbranch branchpos, ∃ branch, merkleComputation hash pbranch leaves branchpos =
        some (rootByLevels hash leaves, mutated, branch)) ∧
      (mutated = true ↔ ∃ level i, (2 * i + 2) * 2 ^ level ≤ leaves.length ∧
        SiblingsEqual (levelOf hash level leaves) i) ∧
      (Injects hash (pairs hash leaves) (pairs hash leaves) →
        (mutated = true ↔ ∃ level i, SiblingsEqual (levelOf hash level leaves) i)) ∧
      ∀ position leaf, leaves[position]? = some leaf →
        ∃ branch, computeMerkleBranch hash leaves position = some branch ∧
          computeMerkleRootFromBranch hash leaf branch position = rootByLevels hash leaves := by
  obtain ⟨mutated, computed, repeats⟩ := merkleComputation_eq hash filled bounded
  rw [← rootByLevels_eq_root] at computed
  have everywhere : ∀ pbranch branchpos, ∃ branch,
      merkleComputation hash pbranch leaves branchpos =
        some (rootByLevels hash leaves, mutated, branch) := by
    intro pbranch branchpos
    have forgotten := merkleComputation_forget hash pbranch leaves branchpos
    rw [computed] at forgotten
    obtain ⟨⟨root, flag, branch⟩, found, same⟩ := map_eq_some_iff.mp forgotten
    obtain ⟨rfl, rfl⟩ := Prod.mk.inj same
    exact ⟨branch, found⟩
  refine ⟨mutated, computed, everywhere, repeats.trans repeats_iff_siblingsEqual, ?_, ?_⟩
  · intro injects
    refine repeats.trans ⟨fun repeated => ?_, ?_⟩
    · obtain ⟨level, i, -, siblings⟩ := repeats_iff_siblingsEqual.mp repeated
      exact ⟨level, i, siblings⟩
    · intro equal
      obtain ⟨level, i, siblings⟩ := equal
      exact repeats_of_siblingsEqual injects siblings
  · intro position leaf requested
    obtain ⟨branch, found⟩ := everywhere true position
    exact ⟨branch, by rw [computeMerkleBranch, found, Option.map_some],
      opens_merkleComputation bounded requested found⟩

/-- Five leaves: two levels are odd, and the branch of the last leaf begins with the leaf itself. -/
theorem merkleComputation_by_levels_five :
    ∃ mutated branch,
      computeMerkleRoot sampleNodeHash [1, 2, 3, 4, 5] =
        some (rootByLevels sampleNodeHash [1, 2, 3, 4, 5], mutated) ∧
      (mutated = true ↔ ∃ level i, SiblingsEqual (levelOf sampleNodeHash level [1, 2, 3, 4, 5]) i) ∧
      computeMerkleBranch sampleNodeHash [1, 2, 3, 4, 5] 4 = some branch ∧
      computeMerkleRootFromBranch sampleNodeHash 5 branch 4 =
        rootByLevels sampleNodeHash [1, 2, 3, 4, 5] := by
  obtain ⟨mutated, computed, -, -, reported, branches⟩ :=
    merkleComputation_by_levels sampleNodeHash (List.cons_ne_nil 1 [2, 3, 4, 5]) (by decide)
  obtain ⟨branch, found, opens⟩ := branches 4 5 rfl
  exact ⟨mutated, branch, computed, reported (by decide +kernel), found, opens⟩

end Result

end DogeCash.MerkleBranch
