import DogeCash.Chain.SkipList
import DogeCash.Foundation.Loop

/-! # The vector of the active chain

`CChain` keeps the blocks of a chain by their heights. `SetTip` goes down from the new tip and
stops at the first entry that is right already: below it nothing has to be written, since the
ancestors of a block are where they belong whenever the block is. The vector is therefore the
ascent to the last tip, and the blocks that it contains are the ancestors of the tip.
-/

namespace DogeCash

open BlockTree (ascent_of_pprev ascent_of_root isAncestor_iff_pprev isAncestor_refl mem_ascent)
open List (length_append length_set length_singleton length_take mem_cons_self mem_map
  mem_singleton)

/-- `CChain`; a null pointer is `none`. -/
structure CChain (Ptr : Type) where
  vChain : List (Option Ptr)

namespace CChain

variable {Ptr Hash : Type}

def genesis (chain : CChain Ptr) : Option Ptr := chain.vChain.head?.join

def tip (chain : CChain Ptr) : Option Ptr := chain.vChain.getLast?.join

def height (chain : CChain Ptr) : ℤ := chain.vChain.length - 1

/-- `CChain::operator[]` -/
def atHeight (chain : CChain Ptr) (nHeight : ℤ) : Option Ptr :=
  if nHeight < 0 ∨ (chain.vChain.length : ℤ) ≤ nHeight then none
  else chain.vChain[nHeight.toNat]?.join

/-- `std::vector::resize`; new entries are null. -/
def resize (vChain : List (Option Ptr)) (size : ℕ) : List (Option Ptr) :=
  vChain.take size ++ List.replicate (size - vChain.length) none

variable [DecidableEq Ptr]

def contains (tree : BlockTree Ptr) (chain : CChain Ptr) (pindex : Ptr) : Bool :=
  chain.atHeight (tree.nHeight pindex) = some pindex

/-- The loop of `CChain::SetTip`, down from a block. -/
def writeBack (tree : BlockTree Ptr) (vChain : List (Option Ptr)) (pindex : Ptr) :
    List (Option Ptr) :=
  if vChain[tree.nHeight pindex]? = some (some pindex) then vChain
  else
    let written := vChain.set (tree.nHeight pindex) (some pindex)
    match _ : tree.pprev pindex with
    | none => written
    | some pprev => writeBack tree written pprev
termination_by tree.nHeight pindex
decreasing_by
  have := tree.grows pindex pprev (by assumption)
  omega

def setTip (tree : BlockTree Ptr) (chain : CChain Ptr) (pindex : Option Ptr) : CChain Ptr :=
  match pindex with
  | none => ⟨[]⟩
  | some pindex => ⟨writeBack tree (resize chain.vChain (tree.nHeight pindex + 1)) pindex⟩

/-- The loop of `CChain::FindFork`. -/
def descend (tree : BlockTree Ptr) (chain : CChain Ptr) (pindex : Ptr) : Option Ptr :=
  if chain.contains tree pindex then some pindex
  else
    match _ : tree.pprev pindex with
    | none => none
    | some pprev => descend tree chain pprev
termination_by tree.nHeight pindex
decreasing_by
  have := tree.grows pindex pprev (by assumption)
  omega

def findFork (tree : BlockTree Ptr) (pskip : Ptr → Option Ptr) (chain : CChain Ptr)
    (pindex : Option Ptr) : Except BlockTree.NullPointer (Option Ptr) :=
  match pindex with
  | none => .ok none
  | some pindex => do
    let start ←
      if chain.height < tree.nHeight pindex then tree.getAncestorBySkips pskip pindex chain.height
      else .ok (some pindex)
    .ok (start.bind (chain.descend tree))

/-- The variables of the loop of `GetLocator`. -/
structure LocatorState (Ptr Hash : Type) where
  pindex : Option Ptr
  nStep : ℕ
  vHave : List Hash

/-- A round of the loop of `CChain::GetLocator`. -/
def locatorRound (tree : BlockTree Ptr) (pskip : Ptr → Option Ptr) (getBlockHash : Ptr → Hash)
    (chain : CChain Ptr) (state : LocatorState Ptr Hash) :
    Except BlockTree.NullPointer (LocatorState Ptr Hash ⊕ List Hash) :=
  match state.pindex with
  | none => .ok (.inr state.vHave)
  | some pindex =>
    let vHave := state.vHave ++ [getBlockHash pindex]
    if tree.nHeight pindex = 0 then .ok (.inr vHave)
    else do
      let nHeight : ℤ := max ((tree.nHeight pindex : ℤ) - state.nStep) 0
      let next ←
        if chain.contains tree pindex then .ok (chain.atHeight nHeight)
        else tree.getAncestorBySkips pskip pindex nHeight
      .ok (.inl ⟨next, if 10 < vHave.length then state.nStep * 2 else state.nStep, vHave⟩)

/-- `CChain::GetLocator`; `none` if the fuel does not suffice. -/
def getLocator (tree : BlockTree Ptr) (pskip : Ptr → Option Ptr) (getBlockHash : Ptr → Hash)
    (chain : CChain Ptr) (fuel : ℕ) (pindex : Option Ptr) :
    Option (Except BlockTree.NullPointer (List Hash)) :=
  repeatUntil (fun _ => locatorRound tree pskip getBlockHash chain) fuel 0
    ⟨pindex.or chain.tip, 1, []⟩

def findForkInGlobalIndex (tree : BlockTree Ptr) (mapBlockIndex : Hash → Option Ptr)
    (chain : CChain Ptr) (locator : List Hash) : Option Ptr :=
  (locator.findSome? fun hash => (mapBlockIndex hash).filter (chain.contains tree)).or chain.genesis

/-! ## The ascent to a tip -/

variable {tree : BlockTree Ptr} {a b p t : Ptr}

omit [DecidableEq Ptr] in
theorem length_ascent (rooted : tree.Rooted) (known : b ∈ tree.blocks) :
    (tree.ascent b).length = tree.nHeight b + 1 := by
  induction height : tree.nHeight b generalizing b with
  | zero =>
    cases above : tree.pprev b with
    | none => rw [ascent_of_root above, length_singleton]
    | some p =>
      have := tree.grows b p above
      omega
  | succ n ih =>
    obtain ⟨p, above⟩ := rooted.exists_pprev known (by omega)
    have grown := tree.grows b p above
    rw [ascent_of_pprev above, length_append, length_singleton,
      ih (tree.known b p above).2 (by omega)]

omit [DecidableEq Ptr] in
theorem getElem?_ascent (rooted : tree.Rooted) (known : b ∈ tree.blocks)
    (ancestor : tree.IsAncestor a b) : (tree.ascent b)[tree.nHeight a]? = some a := by
  rw [BlockTree.ascent_eq_append ancestor]
  have length := length_ascent rooted (ancestor.mem known)
  rw [List.getElem?_append_left (by omega)]
  cases above : tree.pprev a with
  | none =>
    rw [ascent_of_root above, length_singleton] at length
    rw [ascent_of_root above, show tree.nHeight a = 0 by omega]
    rfl
  | some p =>
    rw [ascent_of_pprev above, length_append, length_singleton] at length
    rw [ascent_of_pprev above, List.getElem?_append_right (by omega),
      show tree.nHeight a - (tree.ascent p).length = 0 by omega]
    rfl

def ofTip (tree : BlockTree Ptr) (tip : Option Ptr) : CChain Ptr :=
  ⟨(tip.map tree.ascent).getD [] |>.map some⟩

omit [DecidableEq Ptr] in
theorem length_ofTip (rooted : tree.Rooted) (known : t ∈ tree.blocks) :
    (ofTip tree (some t)).vChain.length = tree.nHeight t + 1 := by
  rw [ofTip, List.length_map]
  exact length_ascent rooted known

omit [DecidableEq Ptr] in
theorem getElem?_ofTip (rooted : tree.Rooted) (known : t ∈ tree.blocks)
    (ancestor : tree.IsAncestor a t) :
    (ofTip tree (some t)).vChain[tree.nHeight a]? = some (some a) := by
  rw [ofTip, List.getElem?_map]
  exact congrArg _ (getElem?_ascent rooted known ancestor)

variable {vChain : List (Option Ptr)} {path : List Ptr} {nStep : ℕ}

omit [DecidableEq Ptr] in
theorem eq_ofTip (rooted : tree.Rooted) (known : t ∈ tree.blocks)
    (length : vChain.length = tree.nHeight t + 1)
    (ancestors : ∀ a, tree.IsAncestor a t → vChain[tree.nHeight a]? = some (some a)) :
    CChain.mk vChain = ofTip tree (some t) := by
  have sizes := length_ofTip rooted known
  suffices same : vChain = (ofTip tree (some t)).vChain by rw [same]
  apply List.ext_getElem? fun i => ?_
  by_cases inside : i ≤ tree.nHeight t
  · obtain ⟨a, -, ancestor, here⟩ := rooted.exists_getAncestor known inside
    rw [← here, ancestors a ancestor, getElem?_ofTip rooted known ancestor]
  · rw [List.getElem?_eq_none_iff.mpr (by omega), List.getElem?_eq_none_iff.mpr (by omega)]

/-! ## Setting the tip -/

omit [DecidableEq Ptr] in
theorem length_resize (vChain : List (Option Ptr)) (size : ℕ) :
    (resize vChain size).length = size := by
  rw [resize, length_append, length_take, List.length_replicate]
  omega

omit [DecidableEq Ptr] in
theorem getElem?_resize {size i : ℕ} :
    (resize vChain size)[i]? = some (some b) ↔ vChain[i]? = some (some b) ∧ i < size := by
  by_cases inside : i < size
  · by_cases old : i < vChain.length
    · rw [resize, List.getElem?_append_left (by rw [length_take]; omega),
        List.getElem?_take_of_lt inside]
      exact (and_iff_left inside).symm
    · have none : vChain[i]? = none := List.getElem?_eq_none_iff.mpr (Nat.not_lt.mp old)
      rw [resize, List.getElem?_append_right (by rw [length_take]; omega),
        List.getElem?_replicate, none]
      split_ifs
      · simp
      · simp
  · rw [List.getElem?_eq_none_iff.mpr (by rw [length_resize]; omega)]
    exact ⟨nofun, fun both => absurd both.2 inside⟩

def ClosedUpTo (tree : BlockTree Ptr) (vChain : List (Option Ptr)) (height : ℕ) : Prop :=
  ∀ q, vChain[tree.nHeight q]? = some (some q) → tree.nHeight q ≤ height →
    ∀ a, tree.IsAncestor a q → vChain[tree.nHeight a]? = some (some a)

theorem writeBack_of_root (absent : vChain[tree.nHeight b]? ≠ some (some b))
    (root : tree.pprev b = none) :
    writeBack tree vChain b = vChain.set (tree.nHeight b) (some b) := by
  rw [writeBack, if_neg absent]
  split
  · rfl
  · rename_i p above
    rw [root] at above
    cases above

theorem writeBack_of_pprev (absent : vChain[tree.nHeight b]? ≠ some (some b))
    (above : tree.pprev b = some p) :
    writeBack tree vChain b = writeBack tree (vChain.set (tree.nHeight b) (some b)) p := by
  rw [writeBack, if_neg absent]
  split
  · rename_i root
    rw [root] at above
    cases above
  · rename_i q other
    cases above.symm.trans other
    rfl

theorem writeBack_spec (vChain : List (Option Ptr)) (pindex : Ptr)
    (fits : tree.nHeight pindex < vChain.length)
    (closed : ClosedUpTo tree vChain (tree.nHeight pindex)) :
    (writeBack tree vChain pindex).length = vChain.length ∧
      (∀ a, tree.IsAncestor a pindex →
        (writeBack tree vChain pindex)[tree.nHeight a]? = some (some a)) ∧
      ∀ i, tree.nHeight pindex < i → (writeBack tree vChain pindex)[i]? = vChain[i]? := by
  induction vChain, pindex using writeBack.induct tree with
  | case1 vChain pindex present =>
    rw [writeBack, if_pos present]
    exact ⟨rfl, closed pindex present (Nat.le_refl _), fun i _ => rfl⟩
  | case2 vChain pindex absent root =>
    rw [writeBack_of_root absent root]
    refine ⟨length_set, fun a ancestor => ?_, fun i above => ?_⟩
    · rcases isAncestor_iff_pprev.mp ancestor with rfl | ⟨p, above, -⟩
      · exact List.getElem?_set_self fits
      · rw [root] at above
        cases above
    · exact List.getElem?_set_ne (by omega)
  | case3 vChain pindex absent written p above ih =>
    have grown := tree.grows pindex p above
    have below : ∀ i, i < tree.nHeight pindex → written[i]? = vChain[i]? :=
      fun i less => List.getElem?_set_ne (by omega)
    have stillClosed : ClosedUpTo tree written (tree.nHeight p) := by
      intro q present lower a ancestor
      have least := ancestor.nHeight_le
      rw [below _ (by omega)] at present ⊢
      exact closed q present (by omega) a ancestor
    obtain ⟨length, ancestors, others⟩ := ih (by rw [length_set]; omega) stillClosed
    rw [writeBack_of_pprev absent above]
    refine ⟨length.trans length_set, fun a ancestor => ?_, fun i higher => ?_⟩
    · rcases isAncestor_iff_pprev.mp ancestor with rfl | ⟨q, other, rest⟩
      · rw [others _ (by omega)]
        exact List.getElem?_set_self fits
      · cases above.symm.trans other
        exact ancestors a rest
    · rw [others i (by omega)]
      exact List.getElem?_set_ne (by omega)

omit [DecidableEq Ptr] in
theorem closedUpTo_resize (rooted : tree.Rooted) {tip : Option Ptr}
    (known : ∀ t, tip = some t → t ∈ tree.blocks) (height : ℕ) :
    ClosedUpTo tree (resize (ofTip tree tip).vChain (height + 1)) height := by
  intro q present lower a ancestor
  have less := ancestor.nHeight_le
  rw [getElem?_resize] at present ⊢
  cases tip with
  | none => cases present.1
  | some t =>
    have listed : q ∈ tree.ascent t := by
      have := List.mem_of_getElem? present.1
      obtain ⟨other, mem, same⟩ := mem_map.mp this
      cases same
      exact mem
    have onChain := ancestor.trans (mem_ascent.mp listed)
    exact ⟨getElem?_ofTip rooted (known t rfl) onChain, by omega⟩

/-- **A step.** `SetTip` turns the chain to any tip into the chain to the new one. -/
theorem setTip_ofTip (rooted : tree.Rooted) {tip next : Option Ptr}
    (known : ∀ t, tip = some t → t ∈ tree.blocks)
    (knownNext : ∀ t, next = some t → t ∈ tree.blocks) :
    setTip tree (ofTip tree tip) next = ofTip tree next := by
  cases next with
  | none => rfl
  | some t =>
    have size := length_resize (ofTip tree tip).vChain (tree.nHeight t + 1)
    obtain ⟨length, ancestors, -⟩ := writeBack_spec
      (resize (ofTip tree tip).vChain (tree.nHeight t + 1)) t (by omega)
      (closedUpTo_resize rooted known (tree.nHeight t))
    exact eq_ofTip rooted (knownNext t rfl) (length.trans size) ancestors

/-- **A run.** After any calls of `SetTip` the vector is that of the last tip. -/
theorem foldl_setTip (rooted : tree.Rooted) (calls : List (Option Ptr))
    (known : ∀ t, some t ∈ calls → t ∈ tree.blocks) :
    calls.foldl (setTip tree) ⟨[]⟩ = ofTip tree calls.getLast?.join := by
  induction calls using List.reverseRecOn with
  | nil => rfl
  | append_singleton front next ih =>
    have earlier : ∀ t, some t ∈ front → t ∈ tree.blocks :=
      fun t mem => known t (List.mem_append_left _ mem)
    rw [List.foldl_append, ih earlier, List.foldl_cons, List.foldl_nil, List.getLast?_concat]
    refine setTip_ofTip rooted (fun t last => ?_) fun t same => ?_
    · exact earlier t (List.mem_of_getLast? (Option.join_eq_some_iff.mp last))
    · cases same
      exact known t (List.mem_append_right _ mem_cons_self)

/-! ## The blocks of the chain -/

omit [DecidableEq Ptr] in
theorem atHeight_natCast (chain : CChain Ptr) (n : ℕ) :
    chain.atHeight n = chain.vChain[n]?.join := by
  rw [atHeight, Int.toNat_natCast]
  split
  · rw [List.getElem?_eq_none_iff.mpr (by omega)]
    rfl
  · rfl

omit [DecidableEq Ptr] in
theorem atHeight_ofTip (rooted : tree.Rooted) (known : t ∈ tree.blocks)
    (ancestor : tree.IsAncestor a t) :
    (ofTip tree (some t)).atHeight (tree.nHeight a) = some a := by
  rw [atHeight_natCast, getElem?_ofTip rooted known ancestor]
  rfl

theorem contains_ofTip (rooted : tree.Rooted) (known : t ∈ tree.blocks) :
    (ofTip tree (some t)).contains tree b = true ↔ tree.IsAncestor b t := by
  rw [contains, decide_eq_true_eq]
  constructor
  · intro here
    rw [atHeight_natCast, Option.join_eq_some_iff] at here
    obtain ⟨c, mem, same⟩ := mem_map.mp (List.mem_of_getElem? here)
    cases same
    exact mem_ascent.mp mem
  · exact atHeight_ofTip rooted known

omit [DecidableEq Ptr] in
theorem height_ofTip (rooted : tree.Rooted) (known : t ∈ tree.blocks) :
    (ofTip tree (some t)).height = tree.nHeight t := by
  rw [height, length_ofTip rooted known]
  omega

omit [DecidableEq Ptr] in
theorem tip_ofTip (tip : Option Ptr) : (ofTip tree tip).tip = tip := by
  cases tip with
  | none => rfl
  | some t =>
    rw [CChain.tip, ofTip, Option.map_some, Option.getD_some, List.getLast?_map]
    cases above : tree.pprev t with
    | none => rw [ascent_of_root above]; rfl
    | some p => rw [ascent_of_pprev above, List.getLast?_concat]; rfl

omit [DecidableEq Ptr] in
theorem genesis_ofTip (rooted : tree.Rooted) (known : t ∈ tree.blocks) :
    ∃ root, (ofTip tree (some t)).genesis = some root ∧
      ∀ c ∈ tree.blocks, tree.IsAncestor root c := by
  obtain ⟨root, -, -, zero, below⟩ := id rooted
  have first := getElem?_ofTip rooted known (below t known)
  rw [zero] at first
  refine ⟨root, ?_, below⟩
  rw [CChain.genesis, List.head?_eq_getElem?, first]
  rfl

/-! ## The fork -/

theorem descend_isLastCommon (rooted : tree.Rooted) (known : t ∈ tree.blocks) (pindex : Ptr)
    (mem : pindex ∈ tree.blocks) :
    ∃ c, descend tree (ofTip tree (some t)) pindex = some c ∧ tree.IsLastCommon pindex t c := by
  induction pindex using descend.induct tree (ofTip tree (some t)) with
  | case1 pindex inside =>
    have onChain := (contains_ofTip rooted known).mp inside
    refine ⟨pindex, by rw [descend, if_pos inside], fun x => ⟨fun below => ?_, And.left⟩⟩
    exact ⟨below, below.trans onChain⟩
  | case2 pindex outside root =>
    obtain ⟨lowest, listed, -, zero, below⟩ := id rooted
    have bottom : tree.nHeight pindex = 0 := by
      by_contra higher
      obtain ⟨p, above⟩ := rooted.exists_pprev mem (Nat.pos_of_ne_zero higher)
      rw [root] at above
      cases above
    have same := rooted.eq_of_zero mem listed bottom zero
    exact absurd ((contains_ofTip rooted known).mpr (same ▸ below t known)) outside
  | case3 pindex outside p above ih =>
    obtain ⟨c, found, last⟩ := ih (tree.known pindex p above).2
    have offChain : ¬tree.IsAncestor pindex t :=
      fun ancestor => outside ((contains_ofTip rooted known).mpr ancestor)
    refine ⟨c, ?_, fun x => ?_⟩
    · rw [descend, if_neg outside, ← found]
      split
      · rename_i root
        rw [root] at above
        cases above
      · rename_i q other
        cases above.symm.trans other
        rfl
    · rw [last x, isAncestor_iff_pprev (b := pindex)]
      simp only [above, Option.some.injEq, exists_eq_left']
      constructor
      · exact fun ⟨first, second⟩ => ⟨.inr first, second⟩
      · rintro ⟨rfl | first, second⟩
        · exact absurd second offChain
        · exact ⟨first, second⟩

variable {pskip : Ptr → Option Ptr}

/-- **`FindFork` finds the last common ancestor** of a block and the tip. -/
theorem findFork_isLastCommon (rooted : tree.Rooted) (built : tree.SkipsBuilt pskip)
    (known : t ∈ tree.blocks) (mem : b ∈ tree.blocks) :
    ∃ c, (ofTip tree (some t)).findFork tree pskip (some b) = .ok (some c) ∧
      tree.IsLastCommon b t c := by
  rw [findFork, height_ofTip rooted known]
  by_cases higher : tree.nHeight t < tree.nHeight b
  · obtain ⟨a, found, ancestor, level⟩ := rooted.exists_getAncestor mem (Nat.le_of_lt higher)
    obtain ⟨c, down, last⟩ := descend_isLastCommon rooted known a (ancestor.mem mem)
    refine ⟨c, ?_, last.of_ancestor ancestor level⟩
    rw [if_pos (by omega),
      rooted.getAncestorBySkips (fun c _ => built c) mem (Nat.le_of_lt higher), found, ← down]
    rfl
  · obtain ⟨c, down, last⟩ := descend_isLastCommon rooted known b mem
    refine ⟨c, ?_, last⟩
    rw [if_neg (by omega), ← down]
    rfl

/-! ## The locator -/

/-- The blocks of a locator: from a block ever lower along its ancestors to the lowest one. -/
structure IsLocatorPath (tree : BlockTree Ptr) (b : Ptr) (path : List Ptr) : Prop where
  starts : path.head? = some b
  ends : ∃ root, path.getLast? = some root ∧ tree.nHeight root = 0
  descends : path.Pairwise fun upper lower => tree.nHeight lower < tree.nHeight upper
  ancestors : ∀ a ∈ path, tree.IsAncestor a b

omit [DecidableEq Ptr] in
theorem isLocatorPath_singleton (bottom : tree.nHeight b = 0) : IsLocatorPath tree b [b] where
  starts := rfl
  ends := ⟨b, rfl, bottom⟩
  descends := List.pairwise_singleton _ b
  ancestors a mem := by
    rw [mem_singleton.mp mem]
    exact isAncestor_refl b

omit [DecidableEq Ptr] in
theorem IsLocatorPath.cons (rest : IsLocatorPath tree a path) (ancestor : tree.IsAncestor a b)
    (lower : tree.nHeight a < tree.nHeight b) :
    IsLocatorPath tree b (b :: path) where
  starts := rfl
  ends := by
    obtain ⟨root, last, bottom⟩ := rest.ends
    exact ⟨root, by rw [List.getLast?_cons, last, Option.getD_some], bottom⟩
  descends := by
    refine List.pairwise_cons.mpr ⟨fun c mem => ?_, rest.descends⟩
    have := (rest.ancestors c mem).nHeight_le
    omega
  ancestors c mem := by
    rcases List.mem_cons.mp mem with rfl | later
    · exact isAncestor_refl c
    · exact (rest.ancestors c later).trans ancestor

variable (getBlockHash : Ptr → Hash)

/-- **A round.** Above the lowest block the loop goes on to a lower ancestor, whether it looks in
the vector or in the skip list. -/
theorem locatorRound_step (rooted : tree.Rooted) (built : tree.SkipsBuilt pskip)
    (known : t ∈ tree.blocks) (mem : b ∈ tree.blocks) (higher : tree.nHeight b ≠ 0)
    (steps : 0 < nStep) (vHave : List Hash) :
    ∃ a step, tree.IsAncestor a b ∧ tree.nHeight a < tree.nHeight b ∧ 0 < step ∧
      locatorRound tree pskip getBlockHash (ofTip tree (some t)) ⟨some b, nStep, vHave⟩ =
        .ok (.inl ⟨some a, step, vHave ++ [getBlockHash b]⟩) := by
  obtain ⟨a, -, ancestor, level⟩ :=
    rooted.exists_getAncestor mem (Nat.sub_le (tree.nHeight b) nStep)
  have target : max ((tree.nHeight b : ℤ) - nStep) 0 = (tree.nHeight a : ℤ) := by omega
  refine ⟨a, if 10 < (vHave ++ [getBlockHash b]).length then nStep * 2 else nStep, ancestor,
    by omega, by split <;> omega, ?_⟩
  simp only [locatorRound, if_neg higher, target]
  by_cases inside : (ofTip tree (some t)).contains tree b = true
  · have onChain := (contains_ofTip rooted known).mp inside
    rw [if_pos inside, atHeight_ofTip rooted known (ancestor.trans onChain)]
    rfl
  · rw [if_neg inside, rooted.getAncestorBySkips (fun c _ => built c) mem ancestor.nHeight_le,
      BlockTree.getAncestor_eq ancestor]
    rfl

/-- **The loop of `GetLocator`** returns, with a path down to the lowest block. -/
theorem repeatUntil_locatorRound (rooted : tree.Rooted) (built : tree.SkipsBuilt pskip)
    (known : t ∈ tree.blocks) (mem : b ∈ tree.blocks) (steps : 0 < nStep) (round : ℕ)
    (vHave : List Hash) :
    ∃ path, IsLocatorPath tree b path ∧ ∀ fuel, tree.nHeight b < fuel →
      repeatUntil (fun _ => locatorRound tree pskip getBlockHash (ofTip tree (some t))) fuel round
        ⟨some b, nStep, vHave⟩ = some (.ok (vHave ++ path.map getBlockHash)) := by
  induction height : tree.nHeight b using Nat.strongRecOn
    generalizing b nStep round vHave with
  | ind height ih =>
    by_cases bottom : tree.nHeight b = 0
    · refine ⟨[b], isLocatorPath_singleton bottom, fun fuel enough => ?_⟩
      obtain ⟨less, rfl⟩ := Nat.exists_eq_add_one_of_ne_zero (Nat.ne_zero_of_lt enough)
      simp only [repeatUntil, locatorRound, if_pos bottom]
      rfl
    · obtain ⟨a, step, ancestor, lower, positive, next⟩ := locatorRound_step
        getBlockHash rooted built known mem bottom steps vHave
      obtain ⟨path, isPath, returns⟩ := ih (tree.nHeight a) (by omega) (ancestor.mem mem)
        positive (round + 1) (vHave ++ [getBlockHash b]) rfl
      refine ⟨b :: path, isPath.cons ancestor lower, fun fuel enough => ?_⟩
      obtain ⟨less, rfl⟩ := Nat.exists_eq_add_one_of_ne_zero (Nat.ne_zero_of_lt enough)
      simp only [repeatUntil, next]
      rw [returns less (by omega), List.append_assoc, List.map_cons, List.singleton_append]

variable {getBlockHash} {mapBlockIndex : Hash → Option Ptr}

theorem findForkInGlobalIndex_common (rooted : tree.Rooted)
    (indexed : ∀ b ∈ tree.blocks, ∀ p, mapBlockIndex (getBlockHash b) = some p → p = b)
    (known : t ∈ tree.blocks) (mem : b ∈ tree.blocks) (isPath : IsLocatorPath tree b path) :
    ∃ c, findForkInGlobalIndex tree mapBlockIndex (ofTip tree (some t))
        (path.map getBlockHash) = some c ∧ tree.IsAncestor c b ∧ tree.IsAncestor c t := by
  rw [findForkInGlobalIndex]
  cases search : (path.map getBlockHash).findSome? fun hash =>
      (mapBlockIndex hash).filter ((ofTip tree (some t)).contains tree) with
  | none =>
    obtain ⟨root, first, below⟩ := genesis_ofTip rooted known
    exact ⟨root, first, below b mem, below t known⟩
  | some c =>
    obtain ⟨hash, listed, here⟩ := List.exists_of_findSome?_eq_some search
    obtain ⟨a, onPath, rfl⟩ := mem_map.mp listed
    obtain ⟨entry, inside⟩ := Option.filter_eq_some_iff.mp here
    have ancestor := isPath.ancestors a onPath
    cases indexed a (ancestor.mem mem) c entry
    exact ⟨c, rfl, ancestor, (contains_ofTip rooted known).mp inside⟩

/-- **The active chain is the ancestry of its tip.** After any calls of `SetTip` the vector has the
ancestor of the last tip at every height up to the tip's. `Contains` and `FindFork` answer for
that ancestry, `GetLocator` goes down from its block to the lowest one, and on any other chain
`FindForkInGlobalIndex` leads from there to a common ancestor of the block and that chain's tip,
which is one of both tips where the block is on this chain. -/
theorem setTip_ancestry (rooted : tree.Rooted) (built : tree.SkipsBuilt pskip)
    (indexed : ∀ b ∈ tree.blocks, ∀ p, mapBlockIndex (getBlockHash b) = some p → p = b)
    (calls : List (Option Ptr)) (t : Ptr)
    (known : ∀ b, some b ∈ calls ++ [some t] → b ∈ tree.blocks) :
    let chain := (calls ++ [some t]).foldl (setTip tree) ⟨[]⟩
    chain.vChain.length = tree.nHeight t + 1 ∧
      (∀ i ≤ tree.nHeight t, ∃ a, chain.vChain[i]? = some (some a) ∧
        tree.getAncestor t i = some a ∧ tree.nHeight a = i) ∧
      (∀ fuel, chain.getLocator tree pskip getBlockHash fuel none =
        chain.getLocator tree pskip getBlockHash fuel (some t)) ∧
      ∀ b ∈ tree.blocks,
        (chain.contains tree b = true ↔ tree.IsAncestor b t) ∧
        (∃ c, chain.findFork tree pskip (some b) = .ok (some c) ∧ tree.IsLastCommon b t c) ∧
        ∃ path, IsLocatorPath tree b path ∧
          (∀ fuel, tree.nHeight b < fuel →
            chain.getLocator tree pskip getBlockHash fuel (some b) =
              some (.ok (path.map getBlockHash))) ∧
          ∀ (others : List (Option Ptr)) (u : Ptr),
            (∀ c, some c ∈ others ++ [some u] → c ∈ tree.blocks) →
            ∃ c, findForkInGlobalIndex tree mapBlockIndex
                ((others ++ [some u]).foldl (setTip tree) ⟨[]⟩) (path.map getBlockHash) = some c ∧
              tree.IsAncestor c b ∧ tree.IsAncestor c u ∧
              (tree.IsAncestor b t → tree.IsAncestor c t) := by
  have onTree : t ∈ tree.blocks := known t (List.mem_append_right _ mem_cons_self)
  have isChain := foldl_setTip rooted (calls ++ [some t]) known
  rw [List.getLast?_concat] at isChain
  intro chain
  have here : chain = ofTip tree (some t) := isChain
  rw [here]
  refine ⟨length_ofTip rooted onTree, fun i lower => ?_, fun fuel => ?_, fun b mem => ?_⟩
  · obtain ⟨a, found, ancestor, level⟩ := rooted.exists_getAncestor onTree lower
    exact ⟨a, level ▸ getElem?_ofTip rooted onTree ancestor, found, level⟩
  · rw [getLocator, getLocator, tip_ofTip]
    rfl
  · obtain ⟨path, isPath, returns⟩ := repeatUntil_locatorRound getBlockHash
      rooted built onTree mem Nat.zero_lt_one 0 []
    refine ⟨contains_ofTip rooted onTree, findFork_isLastCommon rooted built onTree mem, path,
      isPath, returns, fun others u knownOthers => ?_⟩
    have isOther := foldl_setTip rooted (others ++ [some u]) knownOthers
    rw [List.getLast?_concat] at isOther
    obtain ⟨c, found, below, common⟩ := findForkInGlobalIndex_common (t := u)
      rooted indexed
      (knownOthers u (List.mem_append_right _ mem_cons_self)) mem isPath
    refine ⟨c, ?_, below, common, fun inside => below.trans inside⟩
    rw [isOther]
    exact found

def forkAtGenesis : BlockTree ℕ :=
  ((BlockTree.genesis 0 4).add 1 0 1 (by decide) (by decide)).add 2 0 1 (by decide) (by decide)

def forkSkips (b : ℕ) : Option ℕ := if b = 0 then none else some 0

theorem rooted_forkAtGenesis : forkAtGenesis.Rooted :=
  ((BlockTree.rooted_genesis 0 4).add _ _).add _ _

theorem skipsBuilt_forkSkips : forkAtGenesis.SkipsBuilt forkSkips := by
  intro b p above
  have child : b = 1 ∨ b = 2 := by
    have mem := (forkAtGenesis.known b p above).1
    have listed : b = 2 ∨ b = 1 ∨ b = 0 := by
      simpa [forkAtGenesis, BlockTree.add, BlockTree.genesis] using mem
    rcases listed with rfl | rfl | rfl
    · exact .inr rfl
    · exact .inl rfl
    · cases above
  rcases child with rfl | rfl
  · cases above
    decide
  · cases above
    decide

/-- The tip is set to one branch, then to nothing and to the other branch. -/
theorem setTip_ancestry_fork :
    let chain := ([some 2, none] ++ [some 1]).foldl (setTip forkAtGenesis) ⟨[]⟩
    chain.vChain.length = forkAtGenesis.nHeight 1 + 1 ∧
      (∀ i ≤ forkAtGenesis.nHeight 1, ∃ a, chain.vChain[i]? = some (some a) ∧
        forkAtGenesis.getAncestor 1 i = some a ∧ forkAtGenesis.nHeight a = i) ∧
      (∀ fuel, chain.getLocator forkAtGenesis forkSkips id fuel none =
        chain.getLocator forkAtGenesis forkSkips id fuel (some 1)) ∧
      ∀ b ∈ forkAtGenesis.blocks,
        (chain.contains forkAtGenesis b = true ↔ forkAtGenesis.IsAncestor b 1) ∧
        (∃ c, chain.findFork forkAtGenesis forkSkips (some b) = .ok (some c) ∧
          forkAtGenesis.IsLastCommon b 1 c) ∧
        ∃ path, IsLocatorPath forkAtGenesis b path ∧
          (∀ fuel, forkAtGenesis.nHeight b < fuel →
            chain.getLocator forkAtGenesis forkSkips id fuel (some b) = some (.ok (path.map id))) ∧
          ∀ (others : List (Option ℕ)) (u : ℕ),
            (∀ c, some c ∈ others ++ [some u] → c ∈ forkAtGenesis.blocks) →
            ∃ c, findForkInGlobalIndex forkAtGenesis some
                ((others ++ [some u]).foldl (setTip forkAtGenesis) ⟨[]⟩) (path.map id) = some c ∧
              forkAtGenesis.IsAncestor c b ∧ forkAtGenesis.IsAncestor c u ∧
              (forkAtGenesis.IsAncestor b 1 → forkAtGenesis.IsAncestor c 1) := by
  apply setTip_ancestry rooted_forkAtGenesis skipsBuilt_forkSkips
  · intro b _ p same
    exact (Option.some.inj same).symm
  · intro b listed
    have known : b = 2 ∨ b = 1 := by simpa using listed
    rcases known with rfl | rfl <;> decide

/-- The locator of a block off the chain leads another chain to a block that is not an ancestor of
this chain's tip. -/
theorem locator_of_other_branch :
    (setTip forkAtGenesis ⟨[]⟩ (some 1)).getLocator forkAtGenesis forkSkips id 2 (some 2) =
        some (.ok [2, 0]) ∧
      findForkInGlobalIndex forkAtGenesis some (setTip forkAtGenesis ⟨[]⟩ (some 2)) [2, 0] =
        some 2 ∧
      ¬forkAtGenesis.IsAncestor 2 1 := by
  have first : setTip forkAtGenesis ⟨[]⟩ (some 1) = ofTip forkAtGenesis (some 1) := by
    apply foldl_setTip rooted_forkAtGenesis [some 1]
    intro b last
    rw [mem_singleton, Option.some.injEq] at last
    subst last
    decide
  have second : setTip forkAtGenesis ⟨[]⟩ (some 2) = ofTip forkAtGenesis (some 2) := by
    apply foldl_setTip rooted_forkAtGenesis [some 2]
    intro b last
    rw [mem_singleton, Option.some.injEq] at last
    subst last
    decide
  rw [first, second, ← BlockTree.getAncestor_eq_some]
  refine ⟨?_, by decide, by decide⟩
  obtain ⟨a, step, ancestor, lower, -, next⟩ :=
    locatorRound_step (t := 1) (b := 2) id rooted_forkAtGenesis
      skipsBuilt_forkSkips (by decide) (by decide) (by decide) Nat.zero_lt_one []
  have bottom : a = 0 := rooted_forkAtGenesis.eq_of_zero (ancestor.mem (by decide)) (by decide)
    (Nat.lt_one_iff.mp lower) rfl
  subst bottom
  simp only [getLocator, repeatUntil, Option.some_or, next]
  rfl

end CChain

end DogeCash
