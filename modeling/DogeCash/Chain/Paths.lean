import DogeCash.Chain.BlockTree

/-! # Paths in the tree of block index entries

The tree hangs from one block at height zero. The ancestors of a block, the lowest first, are
then one for each height; those above an ancestor make the path from there to the block. Two
blocks have a last common ancestor, which `LastCommonAncestor` finds by going down from both.
`GetAncestor` takes short cuts over the skip pointers to what it would find one step at a time.
-/

namespace DogeCash.BlockTree

variable {Ptr : Type}

def Rooted (tree : BlockTree Ptr) : Prop :=
  ∃ root ∈ tree.blocks, tree.pprev root = none ∧ tree.nHeight root = 0 ∧
    ∀ b ∈ tree.blocks, tree.IsAncestor root b

def ascent (tree : BlockTree Ptr) (b : Ptr) : List Ptr := (tree.lineage b).reverse

def pathAbove (tree : BlockTree Ptr) (a b : Ptr) : List Ptr :=
  (tree.ascent b).filter fun c => tree.nHeight a < tree.nHeight c

variable {tree : BlockTree Ptr} {a b c p : Ptr}

theorem rooted_genesis (b : Ptr) (nProof : ℕ) : (genesis b nProof).Rooted := by
  refine ⟨b, List.mem_singleton.mpr rfl, rfl, rfl, fun c mem => ?_⟩
  rw [List.mem_singleton.mp mem]
  exact isAncestor_refl b

theorem Rooted.add [DecidableEq Ptr] {prev : Ptr} {nProof : ℕ} (rooted : tree.Rooted)
    (fresh : b ∉ tree.blocks) (found : prev ∈ tree.blocks) :
    (tree.add b prev nProof fresh found).Rooted := by
  obtain ⟨root, known, start, zero, below⟩ := rooted
  have old : root ≠ b := ne_of_mem_of_not_mem known fresh
  refine ⟨root, List.mem_cons_of_mem _ known, (add_pprev known).trans start,
    (Function.update_of_ne old _ _).trans zero, fun c mem => ?_⟩
  rcases List.mem_cons.mp mem with rfl | before
  · have link : (tree.add c prev nProof fresh found).pprev c = some prev := Function.update_self ..
    exact IsAncestor.trans ((add_isAncestor found).mpr (below prev found))
      (isAncestor_of_pprev link)
  · exact (add_isAncestor before).mpr (below c before)

theorem IsAncestor.nHeight_le (ancestor : tree.IsAncestor a b) : tree.nHeight a ≤ tree.nHeight b :=
  DogeCash.IsAncestor.height_le tree.grows ancestor

theorem IsAncestor.of_nHeight_le (first : tree.IsAncestor a c) (second : tree.IsAncestor b c)
    (lower : tree.nHeight a ≤ tree.nHeight b) : tree.IsAncestor a b := by
  rcases DogeCash.IsAncestor.total first second with ancestor | above
  · exact ancestor
  · have same := DogeCash.IsAncestor.eq_of_height tree.grows above
      (Nat.le_antisymm (IsAncestor.nHeight_le above) lower)
    exact same ▸ isAncestor_refl b

theorem Rooted.exists_getAncestor (rooted : tree.Rooted) (known : b ∈ tree.blocks) {height : ℕ}
    (lower : height ≤ tree.nHeight b) :
    ∃ a, tree.getAncestor b height = some a ∧ tree.IsAncestor a b ∧ tree.nHeight a = height := by
  obtain ⟨root, -, -, zero, below⟩ := rooted
  have found : ∃ a, tree.IsAncestor a b ∧ tree.nHeight a = height := by
    have ancestor : DogeCash.IsAncestor tree.pprev root b := below b known
    induction ancestor using Relation.ReflTransGen.head_induction_on with
    | refl =>
      rw [zero, Nat.le_zero] at lower
      exact ⟨root, isAncestor_refl root, by rw [zero, lower]⟩
    | @head child above link rest ih =>
      rw [tree.grows child above link] at lower
      rcases Nat.lt_or_eq_of_le lower with less | same
      · obtain ⟨a, ancestor, here⟩ := ih (tree.known child above link).2 (Nat.le_of_lt_succ less)
        exact ⟨a, ancestor.trans (isAncestor_of_pprev link), here⟩
      · exact ⟨child, isAncestor_refl child, by rw [tree.grows child above link, same]⟩
  obtain ⟨a, ancestor, here⟩ := found
  refine ⟨a, ?_, ancestor, here⟩
  rw [← here]
  exact getAncestor_eq_some.mpr ancestor

theorem getAncestor_eq (ancestor : tree.IsAncestor a b) :
    tree.getAncestor b (tree.nHeight a) = some a := getAncestor_eq_some.mpr ancestor

@[simp] theorem mem_ascent : a ∈ tree.ascent b ↔ tree.IsAncestor a b := by
  rw [ascent, List.mem_reverse, mem_lineage]

theorem ascent_of_pprev (above : tree.pprev b = some p) : tree.ascent b = tree.ascent p ++ [b] := by
  rw [ascent, lineage, lineage_of_parent tree.grows above, List.reverse_cons]
  rfl

theorem ascent_of_root (root : tree.pprev b = none) : tree.ascent b = [b] := by
  rw [ascent, lineage, lineage_of_root root, List.reverse_singleton]

@[simp] theorem mem_pathAbove :
    c ∈ tree.pathAbove a b ↔ tree.IsAncestor c b ∧ tree.nHeight a < tree.nHeight c := by
  rw [pathAbove, List.mem_filter, mem_ascent, decide_eq_true_eq]

theorem ascent_pairwise (tree : BlockTree Ptr) (b : Ptr) :
    (tree.ascent b).Pairwise fun x y => tree.nHeight x < tree.nHeight y := by
  induction height : tree.nHeight b using Nat.strong_induction_on generalizing b with
  | _ n ih =>
    cases above : tree.pprev b with
    | none =>
      rw [ascent_of_root above]
      exact List.pairwise_singleton _ b
    | some p =>
      have grown := tree.grows b p above
      rw [ascent_of_pprev above, List.pairwise_append]
      refine ⟨ih (tree.nHeight p) (by omega) p rfl, List.pairwise_singleton _ b, ?_⟩
      intro x mem y last
      rw [List.mem_singleton.mp last]
      have := IsAncestor.nHeight_le (mem_ascent.mp mem)
      omega

theorem pathAbove_pairwise (tree : BlockTree Ptr) (a b : Ptr) :
    (tree.pathAbove a b).Pairwise fun x y => tree.nHeight x < tree.nHeight y :=
  (ascent_pairwise tree b).filter _

theorem pathAbove_self (b : Ptr) : tree.pathAbove b b = [] := by
  rw [List.eq_nil_iff_forall_not_mem]
  intro c mem
  obtain ⟨ancestor, higher⟩ := mem_pathAbove.mp mem
  exact absurd ancestor.nHeight_le (Nat.not_le.mpr higher)

theorem pathAbove_of_pprev (ancestor : tree.IsAncestor a p) (above : tree.pprev b = some p) :
    tree.pathAbove a b = tree.pathAbove a p ++ [b] := by
  have lower : tree.nHeight a < tree.nHeight b := by
    have := ancestor.nHeight_le
    rw [tree.grows b p above]
    omega
  rw [pathAbove, ascent_of_pprev above, List.filter_append, List.filter_singleton,
    decide_eq_true lower]
  rfl

theorem ascent_eq_append (ancestor : tree.IsAncestor a b) :
    tree.ascent b = tree.ascent a ++ tree.pathAbove a b := by
  have path : DogeCash.IsAncestor tree.pprev a b := ancestor
  induction path using Relation.ReflTransGen.head_induction_on with
  | refl => rw [pathAbove_self, List.append_nil]
  | @head child above link rest ih =>
    rw [pathAbove_of_pprev rest link, ← List.append_assoc, ← ih rest, ascent_of_pprev link]

theorem pathAbove_eq_append (first : tree.IsAncestor a b) (second : tree.IsAncestor b c) :
    tree.pathAbove a c = tree.pathAbove a b ++ tree.pathAbove b c := by
  have whole := ascent_eq_append (first.trans second)
  rw [ascent_eq_append second, ascent_eq_append first, List.append_assoc] at whole
  exact (List.append_cancel_left whole).symm

theorem Rooted.exists_pprev (rooted : tree.Rooted) (known : b ∈ tree.blocks)
    (higher : 0 < tree.nHeight b) : ∃ p, tree.pprev b = some p := by
  obtain ⟨root, -, -, zero, below⟩ := rooted
  rcases isAncestor_iff_pprev.mp (below b known) with rfl | ⟨p, above, -⟩
  · omega
  · exact ⟨p, above⟩

/-! ## Skip pointers -/

def invertLowestOne (n : ℕ) : ℕ := n &&& (n - 1)

def getSkipHeight (height : ℕ) : ℕ :=
  if height < 2 then 0
  else if height % 2 = 1 then invertLowestOne (invertLowestOne (height - 1)) + 1
  else invertLowestOne height

theorem getSkipHeight_lt {height : ℕ} (positive : 0 < height) : getSkipHeight height < height := by
  have lower (n : ℕ) : invertLowestOne n ≤ n - 1 := Nat.and_le_right
  rw [getSkipHeight]
  split
  · exact positive
  · split
    · have := lower (invertLowestOne (height - 1))
      have := lower (height - 1)
      omega
    · have := lower height
      omega

/-- Whether the loop of `GetAncestor` goes on from `heightWalk` over the skip pointer. -/
def followsSkip (heightWalk height : ℕ) : Bool :=
  let heightSkip := getSkipHeight heightWalk
  let heightSkipPrev := getSkipHeight (heightWalk - 1)
  heightSkip = height ||
    (height < heightSkip && !(heightSkipPrev + 2 < heightSkip && height ≤ heightSkipPrev))

/-- The loop of `CBlockIndex::GetAncestor`; `none` where a pointer is null. -/
def walkToAncestor (tree : BlockTree Ptr) (pskip : Ptr → Option Ptr) (height : ℕ) :
    ℕ → Ptr → ℕ → Option Ptr
  | 0, pindexWalk, _ => some pindexWalk
  | n + 1, pindexWalk, heightWalk =>
    if height < heightWalk then
      if followsSkip heightWalk height then
        (pskip pindexWalk).bind fun pindexSkip =>
          walkToAncestor tree pskip height n pindexSkip (getSkipHeight heightWalk)
      else
        (tree.pprev pindexWalk).bind fun pindexPrev =>
          walkToAncestor tree pskip height n pindexPrev (heightWalk - 1)
    else some pindexWalk

/-- The skip pointer of a block is as `BuildSkip` sets it. -/
def SkipBuilt (tree : BlockTree Ptr) (pskip : Ptr → Option Ptr) (b : Ptr) : Prop :=
  ∀ p, tree.pprev b = some p → pskip b = tree.getAncestor p (getSkipHeight (tree.nHeight b))

/-- The skip pointers as `BuildSkip` sets them. -/
def SkipsBuilt (tree : BlockTree Ptr) (pskip : Ptr → Option Ptr) : Prop :=
  ∀ b, tree.SkipBuilt pskip b

/-- **The skip pointers only shorten the walk** to the ancestor at a height. -/
theorem Rooted.walkToAncestor (rooted : tree.Rooted) {pskip : Ptr → Option Ptr}
    {height n : ℕ} (built : ∀ c, tree.IsAncestor c b → tree.SkipBuilt pskip c)
    (known : b ∈ tree.blocks) (lower : height ≤ tree.nHeight b)
    (enough : tree.nHeight b - height ≤ n) :
    tree.walkToAncestor pskip height n b (tree.nHeight b) = tree.getAncestor b height := by
  induction n generalizing b with
  | zero =>
    have here : tree.nHeight b = height := by omega
    rw [BlockTree.walkToAncestor, ← here, getAncestor_eq (isAncestor_refl b)]
  | succ n ih =>
    rw [BlockTree.walkToAncestor]
    by_cases above : height < tree.nHeight b
    · obtain ⟨a, found, ancestor, here⟩ := rooted.exists_getAncestor known lower
      obtain ⟨p, link⟩ := rooted.exists_pprev known (by omega)
      have grown := tree.grows b p link
      have onward (c : Ptr) (onPath : tree.IsAncestor c b) (farther : height ≤ tree.nHeight c)
          (less : tree.nHeight c < tree.nHeight b) :
          tree.walkToAncestor pskip height n c (tree.nHeight c) = tree.getAncestor b height := by
        rw [ih (fun d higher => built d (higher.trans onPath)) (onPath.mem known) farther
          (by omega), found, ← here]
        exact getAncestor_eq (ancestor.of_nHeight_le onPath (by omega))
      rw [if_pos above]
      split
      · rename_i skips
        have farther : height ≤ getSkipHeight (tree.nHeight b) := by
          simp only [followsSkip, Bool.or_eq_true, decide_eq_true_eq, Bool.and_eq_true] at skips
          omega
        have less := getSkipHeight_lt (show 0 < tree.nHeight b by omega)
        obtain ⟨c, skip, onPath, there⟩ := rooted.exists_getAncestor (tree.known b p link).2
          (show getSkipHeight (tree.nHeight b) ≤ tree.nHeight p by omega)
        rw [built b (isAncestor_refl b) p link, skip, Option.bind_some, ← there]
        exact onward c (onPath.trans (isAncestor_of_pprev link)) (by omega) (by omega)
      · rw [link, Option.bind_some, show tree.nHeight b - 1 = tree.nHeight p by omega]
        exact onward p (isAncestor_of_pprev link) (by omega) (by omega)
    · have here : tree.nHeight b = height := by omega
      rw [if_neg above, ← here, getAncestor_eq (isAncestor_refl b)]

/-! ## The last common ancestor -/

/-- The ancestors of `c` are the common ancestors of `a` and `b`. -/
def IsLastCommon (tree : BlockTree Ptr) (a b c : Ptr) : Prop :=
  ∀ x, tree.IsAncestor x c ↔ tree.IsAncestor x a ∧ tree.IsAncestor x b

theorem IsLastCommon.left (last : tree.IsLastCommon a b c) : tree.IsAncestor c a :=
  ((last c).mp (isAncestor_refl c)).1

theorem IsLastCommon.right (last : tree.IsLastCommon a b c) : tree.IsAncestor c b :=
  ((last c).mp (isAncestor_refl c)).2

theorem Rooted.eq_of_zero (rooted : tree.Rooted) (known : a ∈ tree.blocks)
    (known' : b ∈ tree.blocks) (zero : tree.nHeight a = 0) (zero' : tree.nHeight b = 0) :
    a = b := by
  obtain ⟨root, -, -, start, below⟩ := rooted
  have first := DogeCash.IsAncestor.eq_of_height tree.grows (below a known)
    (start.trans zero.symm)
  have second := DogeCash.IsAncestor.eq_of_height tree.grows (below b known')
    (start.trans zero'.symm)
  exact first.symm.trans second

theorem IsLastCommon.of_ancestor (last : tree.IsLastCommon p b c) (ancestor : tree.IsAncestor p a)
    (level : tree.nHeight p = tree.nHeight b) : tree.IsLastCommon a b c := by
  intro x
  rw [last x]
  constructor
  · exact fun ⟨first, second⟩ => ⟨first.trans ancestor, second⟩
  · rintro ⟨first, second⟩
    exact ⟨first.of_nHeight_le ancestor (level ▸ second.nHeight_le), second⟩

theorem IsLastCommon.symm (last : tree.IsLastCommon a b c) : tree.IsLastCommon b a c :=
  fun x => (last x).trans and_comm

variable [DecidableEq Ptr]

/-- The loop of `LastCommonAncestor`; `none` where a pointer is null. -/
def meet (tree : BlockTree Ptr) : ℕ → Ptr → Ptr → Option Ptr
  | 0, _, _ => none
  | n + 1, pa, pb =>
    if pa = pb then some pa
    else
      match tree.pprev pa, tree.pprev pb with
      | some pa, some pb => meet tree n pa pb
      | _, _ => none

/-- The first of two blocks, or its ancestor at the height of the second where it is higher. -/
def lowered (tree : BlockTree Ptr) (pa pb : Ptr) : Option Ptr :=
  if tree.nHeight pb < tree.nHeight pa then tree.getAncestor pa (tree.nHeight pb) else some pa

/-- `LastCommonAncestor`; `none` where its assertion fails. -/
def lastCommonAncestor (tree : BlockTree Ptr) (pa pb : Ptr) : Option Ptr :=
  (tree.lowered pa pb).bind fun first =>
    (tree.lowered pb pa).bind fun second => tree.meet (tree.nHeight first + 1) first second

theorem Rooted.meet (rooted : tree.Rooted) {n : ℕ} (known : a ∈ tree.blocks)
    (known' : b ∈ tree.blocks) (level : tree.nHeight a = tree.nHeight b)
    (enough : tree.nHeight a < n) : ∃ c, tree.meet n a b = some c ∧ tree.IsLastCommon a b c := by
  induction n generalizing a b with
  | zero => omega
  | succ n ih =>
    rw [BlockTree.meet]
    by_cases same : a = b
    · subst same
      exact ⟨a, if_pos rfl, fun x => and_self_iff.symm⟩
    · have higher : 0 < tree.nHeight a := by
        by_contra zero
        exact same (rooted.eq_of_zero known known' (by omega) (by omega))
      obtain ⟨p, above⟩ := rooted.exists_pprev known higher
      obtain ⟨q, above'⟩ := rooted.exists_pprev known' (level ▸ higher)
      have grown := tree.grows a p above
      have grown' := tree.grows b q above'
      obtain ⟨c, found, last⟩ := ih (tree.known a p above).2 (tree.known b q above').2
        (by omega) (by omega)
      refine ⟨c, by simp only [if_neg same, above, above', found], fun x => ?_⟩
      rw [last x, isAncestor_iff_pprev (b := a), isAncestor_iff_pprev (b := b)]
      simp only [above, above', Option.some.injEq, exists_eq_left']
      constructor
      · exact fun ⟨first, second⟩ => ⟨.inr first, .inr second⟩
      · -- Neither block is an ancestor of the other, as they have the same height.
        rintro ⟨rfl | first, rfl | second⟩
        · exact absurd rfl same
        · have := second.nHeight_le
          omega
        · have := first.nHeight_le
          omega
        · exact ⟨first, second⟩

/-- **`LastCommonAncestor` finds the last common ancestor** of any two blocks. -/
theorem Rooted.lastCommonAncestor (rooted : tree.Rooted) (known : a ∈ tree.blocks)
    (known' : b ∈ tree.blocks) :
    ∃ c, tree.lastCommonAncestor a b = some c ∧ tree.IsLastCommon a b c := by
  rcases Nat.lt_trichotomy (tree.nHeight a) (tree.nHeight b) with lower | level | higher
  · obtain ⟨q, found, ancestor, here⟩ := rooted.exists_getAncestor known' (Nat.le_of_lt lower)
    obtain ⟨c, meets, last⟩ :=
      rooted.meet known (ancestor.mem known') here.symm (Nat.lt_succ_self _)
    refine ⟨c, ?_, (last.symm.of_ancestor ancestor here).symm⟩
    rw [BlockTree.lastCommonAncestor, lowered, if_neg (Nat.lt_asymm lower), lowered,
      if_pos lower, found]
    exact meets
  · obtain ⟨c, meets, last⟩ := rooted.meet known known' level (Nat.lt_succ_self _)
    refine ⟨c, ?_, last⟩
    rw [BlockTree.lastCommonAncestor, lowered, if_neg (Nat.not_lt.mpr (Nat.le_of_eq level)),
      lowered, if_neg (Nat.not_lt.mpr (Nat.le_of_eq level.symm))]
    exact meets
  · obtain ⟨p, found, ancestor, here⟩ := rooted.exists_getAncestor known (Nat.le_of_lt higher)
    obtain ⟨c, meets, last⟩ := rooted.meet (ancestor.mem known) known' here (Nat.lt_succ_self _)
    refine ⟨c, ?_, last.of_ancestor ancestor here⟩
    rw [BlockTree.lastCommonAncestor, lowered, if_pos higher, found, lowered,
      if_neg (Nat.lt_asymm higher)]
    exact meets

end DogeCash.BlockTree
