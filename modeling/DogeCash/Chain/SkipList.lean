import DogeCash.Chain.Paths
import DogeCash.Foundation.Checked

/-! # The skip list of a block index

`GetAncestor` goes down from a block over `pskip` and `pprev`, and keeps count of the height it
has reached without looking at the blocks it passes. `BuildSkip` finds the skip pointer of a
block with `GetAncestor` of its predecessor, so that the pointers of a block rest on those of
all its ancestors. Set in order of height, they lead `GetAncestor` to the block that one step
after another over `pprev` leads to.
-/

namespace DogeCash.BlockTree

variable {Ptr : Type}

/-- A member of a null pointer is read. -/
inductive NullPointer where
  | dereferenced

/-- The loop of `CBlockIndex::GetAncestor`. The height that it counts falls in every round. -/
def walkDown (tree : BlockTree Ptr) (pskip : Ptr → Option Ptr) (height : ℕ)
    (pindexWalk : Option Ptr) (heightWalk : ℕ) : Except NullPointer (Option Ptr) :=
  if _ : height < heightWalk then
    match pindexWalk with
    | none => .error .dereferenced
    | some walk =>
      if followsSkip heightWalk height then
        walkDown tree pskip height (pskip walk) (getSkipHeight heightWalk)
      else walkDown tree pskip height (tree.pprev walk) (heightWalk - 1)
  else .ok pindexWalk
termination_by heightWalk
decreasing_by
  · exact getSkipHeight_lt (by omega)
  · omega

/-- `CBlockIndex::GetAncestor`; the null pointer is `none`. -/
def getAncestorBySkips (tree : BlockTree Ptr) (pskip : Ptr → Option Ptr) (b : Ptr) (height : ℤ) :
    Except NullPointer (Option Ptr) :=
  if height > tree.nHeight b ∨ height < 0 then .ok none
  else tree.walkDown pskip height.toNat (some b) (tree.nHeight b)

variable [DecidableEq Ptr]

def buildSkip (tree : BlockTree Ptr) (pskip : Ptr → Option Ptr) (b : Ptr) :
    Except NullPointer (Ptr → Option Ptr) :=
  match tree.pprev b with
  | none => .ok pskip
  | some p => do
    let skip ← tree.getAncestorBySkips pskip p (getSkipHeight (tree.nHeight b))
    .ok (Function.update pskip b skip)

/-- `BuildSkip` of one block after another. Before, no block has a skip pointer. -/
def buildSkips (tree : BlockTree Ptr) (order : List Ptr) : Except NullPointer (Ptr → Option Ptr) :=
  order.foldlM tree.buildSkip fun _ => none

variable {tree : BlockTree Ptr} {pskip : Ptr → Option Ptr} {a b p : Ptr} {height : ℕ}

omit [DecidableEq Ptr] in
theorem walkDown_of_walkToAncestor {n heightWalk : ℕ} (enough : heightWalk - height ≤ n)
    (found : tree.walkToAncestor pskip height n b heightWalk = some a) :
    tree.walkDown pskip height (some b) heightWalk = .ok (some a) := by
  induction n generalizing b heightWalk with
  | zero =>
    cases found
    rw [walkDown, dif_neg (by omega)]
  | succ n ih =>
    rw [walkToAncestor] at found
    rw [walkDown]
    by_cases above : height < heightWalk
    · rw [if_pos above] at found
      rw [dif_pos above]
      by_cases follows : followsSkip heightWalk height = true
      · rw [if_pos follows] at found
        obtain ⟨c, skip, rest⟩ := Option.bind_eq_some_iff.mp found
        have less := getSkipHeight_lt (show 0 < heightWalk by omega)
        simp only [if_pos follows, skip]
        exact ih (by omega) rest
      · rw [if_neg follows] at found
        obtain ⟨c, link, rest⟩ := Option.bind_eq_some_iff.mp found
        simp only [if_neg follows, link]
        exact ih (by omega) rest
    · rw [if_neg above] at found
      cases found
      rw [dif_neg above]

omit [DecidableEq Ptr] in
/-- `GetAncestor` finds the ancestor of a block all of whose ancestors have their skip pointers
built. -/
theorem Rooted.getAncestorBySkips (rooted : tree.Rooted)
    (built : ∀ c, tree.IsAncestor c b → tree.SkipBuilt pskip c) (known : b ∈ tree.blocks)
    (lower : height ≤ tree.nHeight b) :
    tree.getAncestorBySkips pskip b height = .ok (tree.getAncestor b height) := by
  obtain ⟨a, found, -, -⟩ := rooted.exists_getAncestor known lower
  rw [BlockTree.getAncestorBySkips, if_neg (by omega), Int.toNat_natCast, found]
  apply walkDown_of_walkToAncestor (Nat.le_refl _)
  rw [rooted.walkToAncestor built known lower (Nat.le_refl _), found]

theorem Rooted.buildSkip (rooted : tree.Rooted)
    (built : ∀ c, tree.IsAncestor c b → c ≠ b → tree.SkipBuilt pskip c) :
    ∃ next, tree.buildSkip pskip b = .ok next ∧ tree.SkipBuilt next b ∧
      ∀ c, tree.SkipBuilt pskip c → tree.SkipBuilt next c := by
  cases link : tree.pprev b with
  | none =>
    refine ⟨pskip, by rw [BlockTree.buildSkip, link], fun p above => ?_, fun c before => before⟩
    rw [link] at above
    cases above
  | some p =>
    have grown := tree.grows b p link
    have less := getSkipHeight_lt (show 0 < tree.nHeight b by omega)
    have found : tree.getAncestorBySkips pskip p (getSkipHeight (tree.nHeight b)) =
        .ok (tree.getAncestor p (getSkipHeight (tree.nHeight b))) := by
      apply rooted.getAncestorBySkips ?_ (tree.known b p link).2 (by omega)
      intro c ancestor
      apply built c (ancestor.trans (isAncestor_of_pprev link))
      rintro rfl
      have := ancestor.nHeight_le
      omega
    have here : tree.SkipBuilt
        (Function.update pskip b (tree.getAncestor p (getSkipHeight (tree.nHeight b)))) b := by
      intro q above
      cases link.symm.trans above
      exact Function.update_self ..
    refine ⟨_, by simp only [BlockTree.buildSkip, link, found]; rfl, here, fun c before => ?_⟩
    by_cases same : c = b
    · subst same
      exact here
    · intro q above
      rw [Function.update_of_ne same]
      exact before q above

/-- **The skip pointers are built** by `BuildSkip` in order of height. -/
theorem Rooted.buildSkips (rooted : tree.Rooted) {order : List Ptr}
    (covers : ∀ b ∈ tree.blocks, b ∈ order)
    (ordered : order.Pairwise fun a b => tree.nHeight a ≤ tree.nHeight b) :
    ∃ pskip, tree.buildSkips order = .ok pskip ∧ tree.SkipsBuilt pskip := by
  -- The blocks passed so far are built; every block is passed or still to come.
  suffices rest : ∀ (passed : Ptr → Prop) (order : List Ptr) (pskip : Ptr → Option Ptr),
      (∀ b ∈ tree.blocks, passed b ∨ b ∈ order) →
      order.Pairwise (fun a b => tree.nHeight a ≤ tree.nHeight b) →
      (∀ b, passed b → tree.SkipBuilt pskip b) →
      ∃ last, order.foldlM tree.buildSkip pskip = .ok last ∧ tree.SkipsBuilt last by
    exact rest (fun _ => False) order _ (fun b mem => .inr (covers b mem)) ordered
      fun b impossible => impossible.elim
  intro passed order
  induction order generalizing passed with
  | nil =>
    intro pskip covers _ built
    refine ⟨pskip, rfl, fun b p above => ?_⟩
    rcases covers b (tree.known b p above).1 with before | later
    · exact built b before p above
    · cases later
  | cons b order ih =>
    intro pskip covers ordered built
    obtain ⟨lowest, ordered⟩ := List.pairwise_cons.mp ordered
    have below (c : Ptr) (ancestor : tree.IsAncestor c b) (other : c ≠ b) :
        tree.SkipBuilt pskip c := by
      intro p above
      rcases covers c (tree.known c p above).1 with before | later
      · exact built c before p above
      · rcases List.mem_cons.mp later with same | later
        · exact absurd same other
        · have level := Nat.le_antisymm ancestor.nHeight_le (lowest c later)
          exact absurd (DogeCash.IsAncestor.eq_of_height tree.grows ancestor level) other
    obtain ⟨next, step, here, kept⟩ := rooted.buildSkip below
    obtain ⟨last, run, all⟩ := ih (fun c => c = b ∨ passed c) next
      (fun c mem => by
        rcases covers c mem with before | later
        · exact .inl (.inr before)
        · rcases List.mem_cons.mp later with same | later
          · exact .inl (.inl same)
          · exact .inr later)
      ordered
      (fun c before => by
        rcases before with rfl | before
        · exact here
        · exact kept c (built c before))
    exact ⟨last, foldlM_cons_eq_ok.mpr ⟨next, step, run⟩, all⟩

/-- **The skip list leads where the plain walk leads.** After `BuildSkip` of all blocks in order
of height, `GetAncestor` returns at every height from zero to that of the block what that many
steps over `pprev` lead to, and the null pointer at every other height. -/
theorem getAncestor_eq_plain_walk (rooted : tree.Rooted) (order : List Ptr)
    (covers : ∀ b ∈ tree.blocks, b ∈ order)
    (ordered : order.Pairwise fun a b => tree.nHeight a ≤ tree.nHeight b) :
    ∃ pskip, tree.buildSkips order = .ok pskip ∧ ∀ b ∈ tree.blocks, ∀ height : ℤ,
      (0 ≤ height ∧ height ≤ tree.nHeight b → ∃ a,
        tree.getAncestorBySkips pskip b height = .ok (some a) ∧
        climb tree.pprev (tree.nHeight b - height.toNat) b = some a ∧
        (tree.nHeight a : ℤ) = height) ∧
      (height < 0 ∨ height > tree.nHeight b →
        tree.getAncestorBySkips pskip b height = .ok none) := by
  obtain ⟨pskip, built, all⟩ := rooted.buildSkips covers ordered
  refine ⟨pskip, built, fun b known height => ⟨fun inside => ?_, fun outside => ?_⟩⟩
  · obtain ⟨n, rfl⟩ := Int.eq_ofNat_of_zero_le inside.1
    have lower : n ≤ tree.nHeight b := by omega
    obtain ⟨a, found, -, here⟩ := rooted.exists_getAncestor known lower
    refine ⟨a, ?_, ?_, by rw [here]⟩
    · rw [rooted.getAncestorBySkips (fun c _ => all c) known lower, found]
    · rwa [getAncestor, if_pos lower] at found
  · rw [getAncestorBySkips, if_pos outside.symm]

def chainOfThree : BlockTree ℕ :=
  ((genesis 0 2).add 1 0 1 (by decide) (by decide)).add 2 1 1 (by decide) (by decide)

theorem getAncestor_eq_plain_walk_three :
    ∃ pskip, chainOfThree.buildSkips [0, 1, 2] = .ok pskip ∧ ∀ b ∈ chainOfThree.blocks,
      ∀ height : ℤ,
      (0 ≤ height ∧ height ≤ chainOfThree.nHeight b → ∃ a,
        chainOfThree.getAncestorBySkips pskip b height = .ok (some a) ∧
        climb chainOfThree.pprev (chainOfThree.nHeight b - height.toNat) b = some a ∧
        (chainOfThree.nHeight a : ℤ) = height) ∧
      (height < 0 ∨ height > chainOfThree.nHeight b →
        chainOfThree.getAncestorBySkips pskip b height = .ok none) :=
  getAncestor_eq_plain_walk (((rooted_genesis 0 2).add _ _).add _ _) [0, 1, 2] (by decide)
    (by decide)

end DogeCash.BlockTree
