import DogeCash.Chain.BlockIndex

/-! # Which blocks are linked

A block is linked once `nChainTx` is set. `ReceivedBlockTransactions` links a block when
all blocks before it have data and keeps it in `mapBlocksUnlinked` otherwise, so that a
block is linked exactly when it and all its ancestors have data.
-/

namespace DogeCash.BlockIndex

open Function (update_of_ne update_self)

variable {Ptr : Type} {s t : BlockIndex Ptr} {a b c p : Ptr} {queue : List Ptr}

/-- The data of the block and of all its ancestors are there. -/
def HasChainData (s : BlockIndex Ptr) (b : Ptr) : Prop :=
  ∀ a, s.tree.IsAncestor a b → (s.marks a).haveData = true

theorem predecessorLinked_iff :
    s.predecessorLinked b = true ↔ ∀ p, s.tree.pprev b = some p → (s.marks p).nChainTx ≠ 0 := by
  unfold predecessorLinked
  cases s.tree.pprev b with
  | none => simp
  | some p => simp

theorem hasChainData_iff_pprev : s.HasChainData b ↔
    (s.marks b).haveData = true ∧ ∀ p, s.tree.pprev b = some p → s.HasChainData p := by
  constructor
  · intro data
    refine ⟨data b (BlockTree.isAncestor_refl b), fun p above a ancestor => ?_⟩
    exact data a (ancestor.trans (BlockTree.isAncestor_of_pprev above))
  · rintro ⟨here, before⟩ a ancestor
    rcases BlockTree.isAncestor_iff_pprev.mp ancestor with rfl | ⟨p, above, rest⟩
    · exact here
    · exact before p above a rest

/-- All entries have at least the level `AddToBlockIndex` gives them. -/
def TreeValid (s : BlockIndex Ptr) : Prop :=
  ∀ b ∈ s.tree.blocks, Validity.tree.level ≤ (s.marks b).validity.level

/-- The block can be linked. -/
structure Ready (s : BlockIndex Ptr) (b : Ptr) : Prop where
  known : b ∈ s.tree.blocks
  haveData : (s.marks b).haveData = true
  unset : (s.marks b).nChainTx = 0
  predecessorLinked : s.predecessorLinked b = true

/-- The state of the links while the blocks of a queue are to be linked. -/
structure Linking (s : BlockIndex Ptr) (queue : List Ptr) : Prop where
  linked : ∀ b ∈ s.tree.blocks, (s.marks b).nChainTx ≠ 0 →
    (s.marks b).haveData = true ∧ s.predecessorLinked b = true
  waits : ∀ b ∈ s.tree.blocks, (s.marks b).haveData = true → (s.marks b).nChainTx = 0 →
    b ∈ queue ∨ ∃ p, (p, b) ∈ s.mapBlocksUnlinked
  unlinked : ∀ p b, (p, b) ∈ s.mapBlocksUnlinked →
    s.tree.pprev b = some p ∧ (s.marks b).haveData = true ∧ (s.marks p).nChainTx = 0
  counted : ∀ b ∈ s.tree.blocks, (s.marks b).nChainTx ≠ 0 →
    (s.marks b).nChainTx = s.tree.chainTx (fun a => (s.marks a).nTx) b % 2 ^ 32
  nonzero : ∀ b ∈ s.tree.blocks, s.HasChainData b →
    s.tree.chainTx (fun a => (s.marks a).nTx) b % 2 ^ 32 ≠ 0
  distinct : (queue ++ s.mapBlocksUnlinked.map (·.2)).Nodup

namespace Linking

theorem hasChainData (linking : s.Linking queue) (mem : b ∈ s.tree.blocks)
    (isLinked : (s.marks b).nChainTx ≠ 0) : s.HasChainData b := by
  intro a ancestor
  have above : a ∈ s.tree.blocks ∧ (s.marks a).nChainTx ≠ 0 := by
    refine DogeCash.IsAncestor.induct
      (fun x => x ∈ s.tree.blocks ∧ (s.marks x).nChainTx ≠ 0) ancestor ⟨mem, isLinked⟩ ?_
    rintro child parent link ⟨known, childLinked⟩
    refine ⟨(s.tree.known child parent link).2, ?_⟩
    exact predecessorLinked_iff.mp (linking.linked child known childLinked).2 parent link
  exact (linking.linked a above.1 above.2).1

theorem exists_unlinked_pprev (linking : s.Linking []) (mem : b ∈ s.tree.blocks)
    (data : s.HasChainData b) (unset : (s.marks b).nChainTx = 0) :
    ∃ p, s.tree.pprev b = some p ∧ s.HasChainData p ∧ (s.marks p).nChainTx = 0 := by
  obtain ⟨here, before⟩ := hasChainData_iff_pprev.mp data
  rcases linking.waits b mem here unset with empty | ⟨p, pair⟩
  · cases empty
  · obtain ⟨above, -, missing⟩ := linking.unlinked p b pair
    exact ⟨p, above, before p above, missing⟩

/-- **A block is linked exactly when it and all its ancestors have data.** -/
theorem nChainTx_ne_zero_iff (linking : s.Linking []) (mem : b ∈ s.tree.blocks) :
    (s.marks b).nChainTx ≠ 0 ↔ s.HasChainData b := by
  refine ⟨linking.hasChainData mem, fun data unset => ?_⟩
  -- Of the blocks with this fault there would be none of least height.
  induction height : s.tree.nHeight b generalizing b with
  | zero =>
    obtain ⟨p, above, -, -⟩ := linking.exists_unlinked_pprev mem data unset
    have grown := s.tree.grows b p above
    omega
  | succ n ih =>
    obtain ⟨p, above, before, missing⟩ := linking.exists_unlinked_pprev mem data unset
    have grown := s.tree.grows b p above
    exact ih (s.tree.known b p above).2 before missing (by omega)

theorem nChainTx_eq_zero (linking : s.Linking queue) (mem : b ∈ s.tree.blocks)
    (missing : (s.marks b).haveData = false) : (s.marks b).nChainTx = 0 := by
  by_contra isLinked
  have data := (linking.linked b mem isLinked).1
  rw [missing] at data
  cases data

theorem wait (linking : s.Linking [b]) (above : s.tree.pprev b = some p)
    (data : (s.marks b).haveData = true) (missing : (s.marks p).nChainTx = 0) :
    { s with mapBlocksUnlinked := s.mapBlocksUnlinked ++ [(p, b)] }.Linking [] := by
  refine ⟨linking.linked, ?_, ?_, linking.counted, linking.nonzero, ?_⟩
  · intro a mem present unset
    rcases linking.waits a mem present unset with queued | ⟨q, pair⟩
    · cases List.mem_singleton.mp queued
      exact .inr ⟨p, List.mem_append_right _ List.mem_cons_self⟩
    · exact .inr ⟨q, List.mem_append_left _ pair⟩
  · intro q a pair
    rcases List.mem_append.mp pair with old | new
    · exact linking.unlinked q a old
    · cases List.mem_singleton.mp new
      exact ⟨above, data, missing⟩
  · rw [List.nil_append, List.map_append]
    exact List.perm_append_comm.nodup_iff.mp linking.distinct

theorem nextChainTx_of_predecessor (linking : s.Linking queue) (known : b ∈ s.tree.blocks)
    (here : (s.marks b).haveData = true) (before : s.predecessorLinked b = true) :
    s.nextChainTx b = s.tree.chainTx (fun a => (s.marks a).nTx) b % 2 ^ 32 ∧
      s.nextChainTx b ≠ 0 := by
  have data : s.HasChainData b := by
    refine hasChainData_iff_pprev.mpr ⟨here, fun p above => ?_⟩
    exact linking.hasChainData (s.tree.known b p above).2
      (predecessorLinked_iff.mp before p above)
  have value : s.nextChainTx b = s.tree.chainTx (fun a => (s.marks a).nTx) b % 2 ^ 32 := by
    unfold nextChainTx
    cases above : s.tree.pprev b with
    | none =>
      rw [BlockTree.chainTx_of_root _ above]
    | some p =>
      have parent := linking.counted p (s.tree.known b p above).2
        (predecessorLinked_iff.mp before p above)
      simp only [BlockTree.chainTx_of_pprev _ above]
      omega
  refine ⟨value, ?_⟩
  rw [value]
  exact linking.nonzero b known data

theorem nextChainTx_eq (linking : s.Linking queue) (ready : s.Ready b) :
    s.nextChainTx b = s.tree.chainTx (fun a => (s.marks a).nTx) b % 2 ^ 32 ∧ s.nextChainTx b ≠ 0 :=
  linking.nextChainTx_of_predecessor ready.known ready.haveData ready.predecessorLinked

theorem nChainTx_eq (linking : s.Linking []) (known : b ∈ s.tree.blocks)
    (here : (s.marks b).haveData = true) :
    (s.marks b).nChainTx = if s.predecessorLinked b = true then s.nextChainTx b else 0 := by
  split_ifs with before
  · rw [(linking.nextChainTx_of_predecessor known here before).1]
    refine linking.counted b known fun unset => ?_
    rcases linking.waits b known here unset with empty | ⟨p, pair⟩
    · cases empty
    · obtain ⟨above, -, missing⟩ := linking.unlinked p b pair
      exact predecessorLinked_iff.mp before p above missing
  · by_contra isLinked
    exact before (linking.linked b known isLinked).2

theorem mem_unlinked_iff (linking : s.Linking []) : (p, b) ∈ s.mapBlocksUnlinked ↔
    s.tree.pprev b = some p ∧ (s.marks b).haveData = true ∧ (s.marks p).nChainTx = 0 := by
  refine ⟨linking.unlinked p b, ?_⟩
  rintro ⟨above, here, missing⟩
  have known := (s.tree.known b p above).1
  have unset : (s.marks b).nChainTx = 0 := by
    by_contra isLinked
    exact predecessorLinked_iff.mp (linking.linked b known isLinked).2 p above missing
  rcases linking.waits b known here unset with empty | ⟨q, pair⟩
  · cases empty
  · have same := (linking.unlinked q b pair).1
    rw [above] at same
    cases same
    exact pair

end Linking

/-- Two states with the same tree, data and links. -/
structure SameData (s t : BlockIndex Ptr) : Prop where
  tree : t.tree = s.tree
  unlinked : t.mapBlocksUnlinked = s.mapBlocksUnlinked
  nTx : ∀ b, (t.marks b).nTx = (s.marks b).nTx
  nChainTx : ∀ b, (t.marks b).nChainTx = (s.marks b).nChainTx
  haveData : ∀ b, (t.marks b).haveData = (s.marks b).haveData

namespace SameData

theorem predecessorLinked (same : SameData s t) (b : Ptr) :
    t.predecessorLinked b = s.predecessorLinked b := by
  simp only [BlockIndex.predecessorLinked, same.tree, same.nChainTx]

theorem hasChainData (same : SameData s t) (b : Ptr) : t.HasChainData b ↔ s.HasChainData b := by
  simp only [HasChainData, same.tree, same.haveData]

theorem linking (same : SameData s t) (linking : s.Linking queue) : t.Linking queue := by
  refine ⟨?_, ?_, ?_, ?_, ?_, ?_⟩
  · simp only [same.tree, same.nChainTx, same.haveData, same.predecessorLinked]
    exact linking.linked
  · simp only [same.tree, same.nChainTx, same.haveData, same.unlinked]
    exact linking.waits
  · simp only [same.tree, same.nChainTx, same.haveData, same.unlinked]
    exact linking.unlinked
  · simp only [same.tree, same.nChainTx, same.nTx]
    exact linking.counted
  · simp only [same.tree, same.nTx, same.hasChainData]
    exact linking.nonzero
  · rw [same.unlinked]
    exact linking.distinct

end SameData

variable [LinearOrder Ptr]

@[simp] theorem link_tree : (s.link b).tree = s.tree := rfl

theorem link_marks : (s.link b).marks = Function.update s.marks b
    { s.marks b with nChainTx := s.nextChainTx b, nSequenceId := s.nBlockSequenceId } := rfl

@[simp] theorem link_unlinked :
    (s.link b).mapBlocksUnlinked = s.mapBlocksUnlinked.filter (·.1 ≠ b) := rfl

@[simp] theorem link_haveData : ((s.link b).marks a).haveData = (s.marks a).haveData := by
  rw [link_marks]
  by_cases same : a = b
  · subst same
    rw [update_self]
  · rw [update_of_ne same]

@[simp] theorem link_nTx : ((s.link b).marks a).nTx = (s.marks a).nTx := by
  rw [link_marks]
  by_cases same : a = b
  · subst same
    rw [update_self]
  · rw [update_of_ne same]

theorem link_nChainTx : ((s.link b).marks a).nChainTx =
    if a = b then s.nextChainTx b else (s.marks a).nChainTx := by
  rw [link_marks]
  by_cases same : a = b
  · subst same
    rw [update_self, if_pos rfl]
  · rw [update_of_ne same, if_neg same]

theorem mem_waiting : a ∈ s.waiting b ↔ (b, a) ∈ s.mapBlocksUnlinked := by
  simp [waiting]

theorem linkedOrder (queue : List Ptr) :
    (b :: queue ++ s.mapBlocksUnlinked.map (·.2)).Perm
      (b :: (queue ++ s.waiting b ++ (s.link b).mapBlocksUnlinked.map (·.2))) := by
  have split := List.filter_append_perm (fun pair : Ptr × Ptr => pair.1 = b) s.mapBlocksUnlinked
  rw [link_unlinked, waiting, List.append_assoc, ← List.map_append, List.cons_append]
  refine List.Perm.cons b (List.Perm.append_left queue (List.Perm.map _ ?_))
  simpa only [ne_eq, decide_not] using split.symm

theorem predecessorLinked_link (set : s.nextChainTx b ≠ 0)
    (before : s.predecessorLinked a = true) : (s.link b).predecessorLinked a = true := by
  refine predecessorLinked_iff.mpr fun p above => ?_
  rw [link_nChainTx]
  by_cases same : p = b
  · rw [if_pos same]
    exact set
  · rw [if_neg same]
    exact predecessorLinked_iff.mp before p above

namespace Linking

theorem link (linking : s.Linking (b :: queue)) (ready : s.Ready b) :
    (s.link b).Linking (queue ++ s.waiting b) := by
  obtain ⟨value, set⟩ := linking.nextChainTx_eq ready
  refine ⟨?_, ?_, ?_, ?_, ?_, ?_⟩
  · intro a mem isLinked
    rw [link_haveData]
    by_cases same : a = b
    · subst same
      exact ⟨ready.haveData, predecessorLinked_link set ready.predecessorLinked⟩
    · rw [link_nChainTx, if_neg same] at isLinked
      have old := linking.linked a mem isLinked
      exact ⟨old.1, predecessorLinked_link set old.2⟩
  · intro a mem data unset
    rw [link_haveData] at data
    have ne : a ≠ b := by
      rintro rfl
      rw [link_nChainTx, if_pos rfl] at unset
      exact set unset
    rw [link_nChainTx, if_neg ne] at unset
    rcases linking.waits a mem data unset with queued | ⟨p, pair⟩
    · have rest := (List.mem_cons.mp queued).resolve_left ne
      exact .inl (List.mem_append_left _ rest)
    · by_cases same : p = b
      · subst same
        exact .inl (List.mem_append_right _ (mem_waiting.mpr pair))
      · refine .inr ⟨p, ?_⟩
        exact List.mem_filter.mpr ⟨pair, by simpa using same⟩
  · intro p a pair
    obtain ⟨old, ne⟩ := List.mem_filter.mp pair
    have notSelf : p ≠ b := by simpa using ne
    rw [link_tree, link_haveData, link_nChainTx, if_neg notSelf]
    exact linking.unlinked p a old
  · intro a mem isLinked
    simp only [link_tree, link_nTx]
    by_cases same : a = b
    · subst same
      rw [link_nChainTx, if_pos rfl]
      exact value
    · rw [link_nChainTx, if_neg same] at isLinked ⊢
      exact linking.counted a mem isLinked
  · intro a mem data
    simp only [link_tree, link_nTx]
    refine linking.nonzero a mem fun x ancestor => ?_
    have present := data x ancestor
    rwa [link_haveData] at present
  · exact (List.nodup_cons.mp ((linkedOrder queue).nodup_iff.mp linking.distinct)).2

theorem ready_link (linking : s.Linking (b :: queue))
    (ready : ∀ a ∈ b :: queue, s.Ready a) : ∀ a ∈ queue ++ s.waiting b, (s.link b).Ready a := by
  have set := (linking.nextChainTx_eq (ready b List.mem_cons_self)).2
  have distinct := (List.nodup_cons.mp ((linkedOrder queue).nodup_iff.mp linking.distinct)).1
  intro a mem
  have ne : a ≠ b := by
    rintro rfl
    exact distinct (List.mem_append_left _ mem)
  rcases List.mem_append.mp mem with queued | waiter
  · obtain ⟨known, data, unset, before⟩ := ready a (List.mem_cons_of_mem _ queued)
    refine ⟨known, ?_, ?_, predecessorLinked_link set before⟩
    · rwa [link_haveData]
    · rwa [link_nChainTx, if_neg ne]
  · obtain ⟨above, data, unset⟩ := linking.unlinked b a (mem_waiting.mp waiter)
    refine ⟨(s.tree.known a b above).1, ?_, ?_, ?_⟩
    · rwa [link_haveData]
    · rw [link_nChainTx, if_neg ne]
      by_contra isLinked
      have before := (linking.linked a (s.tree.known a b above).1 isLinked).2
      exact predecessorLinked_iff.mp before b above unset
    · refine predecessorLinked_iff.mpr fun p link => ?_
      have same : p = b := Option.some.inj (link.symm.trans above)
      rw [link_nChainTx, if_pos same]
      exact set

theorem linkQueue {invariant : BlockIndex Ptr → Prop} {fuel : ℕ} (linking : s.Linking queue)
    (ready : ∀ a ∈ queue, s.Ready a)
    (enough : queue.length + s.mapBlocksUnlinked.length ≤ fuel)
    (keeps : ∀ before b rest, before.Linking (b :: rest) → before.Ready b → invariant before →
      invariant (before.link b))
    (start : invariant s) :
    (linkQueue fuel queue s).Linking [] ∧ invariant (BlockIndex.linkQueue fuel queue s) := by
  induction fuel generalizing s queue with
  | zero =>
    have empty : queue = [] := List.eq_nil_of_length_eq_zero (by omega)
    rw [empty] at linking
    exact ⟨linking, start⟩
  | succ fuel ih =>
    cases queue with
    | nil =>
      exact ⟨linking, start⟩
    | cons b queue =>
      have here := ready b List.mem_cons_self
      refine ih (linking.link here) (linking.ready_link ready) ?_
        (keeps s b queue linking here start)
      -- Each round takes one block from the queue and moves those that wait for it there.
      have moved := List.length_eq_length_filter_add (l := s.mapBlocksUnlinked) (·.1 = b)
      simp only [link_unlinked, List.length_append, waiting, List.length_map,
        List.length_cons, ne_eq, decide_not] at enough ⊢
      omega

end Linking

/-- The block of which the data arrive leaves the number of transactions of every chain
without a gap different from zero, as a 32-bit number. -/
def CountFits (s : BlockIndex Ptr) (b : Ptr) (nTx : ℕ) : Prop :=
  ∀ c ∈ s.tree.blocks, s.tree.IsAncestor b c →
    (∀ a, s.tree.IsAncestor a c → a ≠ b → (s.marks a).haveData = true) →
    s.tree.chainTx (Function.update (fun a => (s.marks a).nTx) b nTx) c % 2 ^ 32 ≠ 0

theorem accepts_iff {nTx : ℕ} : s.accepts b nTx = true ↔
    b ∈ s.tree.blocks ∧ (s.marks b).haveData = false ∧ (s.marks b).failed = false ∧
      (∀ p, s.tree.pprev b = some p → (s.marks p).failed = false) ∧ 0 < nTx ∧ nTx < 2 ^ 32 := by
  unfold accepts
  cases s.tree.pprev b with
  | none => simp [and_assoc]
  | some p => simp [and_assoc]

section Add

variable {prev : Ptr} {nProof : ℕ}

/-- A new entry: unmarked but for its level, while everything else stays as it is. -/
structure Added (b prev : Ptr) (nProof : ℕ) (s t : BlockIndex Ptr) : Prop where
  fresh : b ∉ s.tree.blocks
  found : prev ∈ s.tree.blocks
  tree : t.tree = s.tree.add b prev nProof fresh found
  new : t.marks b = { validity := .tree }
  marks : ∀ x ∈ s.tree.blocks, t.marks x = s.marks x
  tip : t.tip = s.tip
  candidates : t.setBlockIndexCandidates = s.setBlockIndexCandidates
  unlinked : t.mapBlocksUnlinked = s.mapBlocksUnlinked

theorem added_of_fresh (fresh : b ∉ s.tree.blocks)
    (result : s.addToBlockIndex b prev nProof = some t) : Added b prev nProof s t := by
  unfold addToBlockIndex at result
  rw [dif_neg fresh] at result
  split at result
  · rename_i found
    cases result
    refine ⟨fresh, found, rfl, update_self .., fun x known => ?_, rfl, rfl, rfl⟩
    exact update_of_ne (ne_of_mem_of_not_mem known fresh) ..
  · cases result

theorem addToBlockIndex_of_known (known : b ∈ s.tree.blocks) :
    s.addToBlockIndex b prev nProof = some s :=
  dif_pos known

theorem addToBlockIndex_eq_some (result : s.addToBlockIndex b prev nProof = some t) :
    t = s ∨ Added b prev nProof s t := by
  by_cases known : b ∈ s.tree.blocks
  · rw [addToBlockIndex_of_known known] at result
    exact .inl (Option.some.inj result).symm
  · exact .inr (added_of_fresh known result)

namespace Added

variable {x : Ptr}

section

variable (added : Added b prev nProof s t)
include added

theorem mem_iff : x ∈ t.tree.blocks ↔ x = b ∨ x ∈ s.tree.blocks := by
  rw [added.tree]
  exact List.mem_cons

section

variable (known : x ∈ s.tree.blocks)
include known

theorem pprev : t.tree.pprev x = s.tree.pprev x := by
  rw [added.tree, BlockTree.add_pprev known]

theorem isAncestor : t.tree.IsAncestor a x ↔ s.tree.IsAncestor a x := by
  rw [added.tree, BlockTree.add_isAncestor known]

theorem chainTx :
    t.tree.chainTx (fun a => (t.marks a).nTx) x = s.tree.chainTx (fun a => (s.marks a).nTx) x := by
  rw [added.tree, BlockTree.add_chainTx _ known]
  refine BlockTree.chainTx_congr fun a ancestor => ?_
  rw [added.marks a (ancestor.mem known)]

theorem hasChainData : t.HasChainData x ↔ s.HasChainData x := by
  refine forall_congr' fun a => ?_
  rw [added.isAncestor known]
  refine imp_congr_right fun ancestor => ?_
  rw [added.marks a (ancestor.mem known)]

end

theorem linking (linking : s.Linking []) : t.Linking [] := by
  have predecessors : ∀ x ∈ s.tree.blocks, s.predecessorLinked x = true →
      t.predecessorLinked x = true := by
    intro x known before
    refine predecessorLinked_iff.mpr fun p above => ?_
    rw [added.pprev known] at above
    rw [added.marks p (s.tree.known x p above).2]
    exact predecessorLinked_iff.mp before p above
  refine ⟨?_, ?_, ?_, ?_, ?_, ?_⟩
  · intro x mem isLinked
    rcases added.mem_iff.mp mem with rfl | known
    · rw [added.new] at isLinked
      cases isLinked rfl
    · rw [added.marks x known] at isLinked ⊢
      obtain ⟨data, before⟩ := linking.linked x known isLinked
      exact ⟨data, predecessors x known before⟩
  · intro x mem data unset
    rcases added.mem_iff.mp mem with rfl | known
    · rw [added.new] at data
      cases data
    · rw [added.marks x known] at data unset
      rw [added.unlinked]
      exact linking.waits x known data unset
  · intro p x pair
    rw [added.unlinked] at pair
    obtain ⟨above, data, unset⟩ := linking.unlinked p x pair
    obtain ⟨known, knownParent⟩ := s.tree.known x p above
    rw [added.pprev known, added.marks x known, added.marks p knownParent]
    exact ⟨above, data, unset⟩
  · intro x mem isLinked
    rcases added.mem_iff.mp mem with rfl | known
    · rw [added.new] at isLinked
      cases isLinked rfl
    · rw [added.chainTx known]
      rw [added.marks x known] at isLinked ⊢
      exact linking.counted x known isLinked
  · intro x mem data
    rcases added.mem_iff.mp mem with rfl | known
    · have here := data x (BlockTree.isAncestor_refl x)
      rw [added.new] at here
      cases here
    · rw [added.chainTx known]
      exact linking.nonzero x known ((added.hasChainData known).mp data)
  · rw [added.unlinked]
    exact linking.distinct

end

end Added

end Add

section Receive

variable {nTx : ℕ}

@[simp] theorem receive_tree : (s.receive b nTx).tree = s.tree := rfl

theorem receive_marks_self : (s.receive b nTx).marks b =
    { s.marks b with nTx := nTx, nChainTx := 0, haveData := true }.raiseValidity .transactions :=
  update_self ..

theorem receive_marks_of_ne (ne : a ≠ b) : (s.receive b nTx).marks a = s.marks a :=
  update_of_ne ne ..

theorem receive_nTx : (fun a => ((s.receive b nTx).marks a).nTx) =
    Function.update (fun a => (s.marks a).nTx) b nTx := by
  funext a
  by_cases same : a = b
  · subst same
    rw [receive_marks_self, BlockMarks.raiseValidity_eq, update_self]
  · rw [receive_marks_of_ne same, update_of_ne same]

theorem receive_haveData : ((s.receive b nTx).marks a).haveData = true ↔
    a = b ∨ (s.marks a).haveData = true := by
  by_cases same : a = b
  · subst same
    rw [receive_marks_self, BlockMarks.raiseValidity_eq]
    simp
  · simp [receive_marks_of_ne same, same]

theorem receive_nChainTx (unset : (s.marks b).nChainTx = 0) :
    ((s.receive b nTx).marks a).nChainTx = (s.marks a).nChainTx := by
  by_cases same : a = b
  · subst same
    rw [receive_marks_self, BlockMarks.raiseValidity_eq, unset]
  · rw [receive_marks_of_ne same]

namespace Linking

theorem receive (linking : s.Linking []) (accepted : s.accepts b nTx = true)
    (fits : s.CountFits b nTx) : (s.receive b nTx).Linking [b] := by
  obtain ⟨known, missing, -, -, -, -⟩ := accepts_iff.mp accepted
  have unset := linking.nChainTx_eq_zero known missing
  have sameLinks : ∀ a, ((s.receive b nTx).marks a).nChainTx = (s.marks a).nChainTx :=
    fun a => receive_nChainTx unset
  have samePredecessors : ∀ a, (s.receive b nTx).predecessorLinked a = s.predecessorLinked a := by
    intro a
    simp only [predecessorLinked, receive_tree, sameLinks]
  -- A chain without the block counts what it counted before.
  have sameCount : ∀ c, ¬ s.tree.IsAncestor b c →
      s.tree.chainTx (Function.update (fun a => (s.marks a).nTx) b nTx) c =
        s.tree.chainTx (fun a => (s.marks a).nTx) c := by
    intro c apart
    refine BlockTree.chainTx_congr fun a ancestor => ?_
    have ne : a ≠ b := by
      rintro rfl
      exact apart ancestor
    rw [update_of_ne ne]
  refine ⟨?_, ?_, ?_, ?_, ?_, ?_⟩
  · intro a mem isLinked
    rw [sameLinks] at isLinked
    obtain ⟨data, before⟩ := linking.linked a mem isLinked
    rw [samePredecessors]
    exact ⟨receive_haveData.mpr (.inr data), before⟩
  · intro a mem data unlinked
    rw [sameLinks] at unlinked
    rcases receive_haveData.mp data with rfl | old
    · exact .inl List.mem_cons_self
    · rcases linking.waits a mem old unlinked with empty | waiting
      · cases empty
      · exact .inr waiting
  · intro p a pair
    obtain ⟨above, data, unlinked⟩ := linking.unlinked p a pair
    rw [sameLinks]
    exact ⟨above, receive_haveData.mpr (.inr data), unlinked⟩
  · intro a mem isLinked
    rw [sameLinks] at isLinked ⊢
    have apart : ¬ s.tree.IsAncestor b a := by
      intro ancestor
      have data := linking.hasChainData mem isLinked b ancestor
      rw [missing] at data
      cases data
    rw [receive_nTx, receive_tree, sameCount a apart]
    exact linking.counted a mem isLinked
  · intro c mem data
    rw [receive_nTx, receive_tree]
    by_cases ancestor : s.tree.IsAncestor b c
    · refine fits c mem ancestor fun a higher ne => ?_
      exact (receive_haveData.mp (data a higher)).resolve_left ne
    · rw [sameCount c ancestor]
      refine linking.nonzero c mem fun a higher => ?_
      refine (receive_haveData.mp (data a higher)).resolve_left ?_
      rintro rfl
      exact ancestor higher
  · refine List.nodup_cons.mpr ⟨fun waiting => ?_, linking.distinct⟩
    obtain ⟨⟨p, x⟩, pair, rfl⟩ := List.mem_map.mp waiting
    have data := (linking.unlinked p x pair).2.1
    rw [missing] at data
    cases data

/-- **`ReceivedBlockTransactions` links the blocks that can be linked** and keeps what
receiving the data and linking a block keep. -/
theorem receivedBlockTransactions {invariant : BlockIndex Ptr → Prop} (linking : s.Linking [])
    (valid : s.TreeValid) (accepted : s.accepts b nTx = true) (fits : s.CountFits b nTx)
    (keeps : ∀ before a rest, before.Linking (a :: rest) → before.Ready a → invariant before →
      invariant (before.link a))
    (waits : ∀ p, (s.receive b nTx).predecessorLinked b = false →
      invariant (s.receive b nTx) → invariant { s.receive b nTx with
        mapBlocksUnlinked := (s.receive b nTx).mapBlocksUnlinked ++ [(p, b)] })
    (start : invariant (s.receive b nTx)) :
    (s.receivedBlockTransactions b nTx).Linking [] ∧
      invariant (s.receivedBlockTransactions b nTx) := by
  have received := linking.receive accepted fits
  obtain ⟨known, missing, -, parentFine, -, -⟩ := accepts_iff.mp accepted
  have data : ((s.receive b nTx).marks b).haveData = true := receive_haveData.mpr (.inl rfl)
  simp only [BlockIndex.receivedBlockTransactions]
  cases before : (s.receive b nTx).predecessorLinked b with
  | true =>
    refine received.linkQueue (fun a mem => ?_) (by simp [Nat.add_comm]) keeps start
    cases List.mem_singleton.mp mem
    have unset := linking.nChainTx_eq_zero known missing
    exact ⟨known, data, (receive_nChainTx unset).trans unset, before⟩
  | false =>
    have stuck := before
    rw [← Bool.not_eq_true, predecessorLinked_iff] at stuck
    simp only [receive_tree, not_forall, not_not] at stuck
    obtain ⟨p, above, unset⟩ := stuck
    have ne : p ≠ b := by
      rintro rfl
      have grown := s.tree.grows p p above
      omega
    have parentValid : ((s.receive b nTx).marks p).isValid .tree = true := by
      rw [receive_marks_of_ne ne, BlockMarks.isValid, parentFine p above]
      simpa using valid p (s.tree.known b p above).2
    simp only [Bool.false_eq_true, ↓reduceIte, unlink, receive_tree, above, parentValid]
    exact ⟨received.wait above data unset, waits p before start⟩

end Linking

end Receive

end DogeCash.BlockIndex
