import DogeCash.Chain.FailureFlags

/-! # The candidates for the active tip

`setBlockIndexCandidates` is to hold every usable block that is as good as the active tip.
While a reorganisation is under way the tip can be worse than it was, and blocks that were
removed for the sake of the old tip are missing. What holds at all times is that the
candidates are complete with respect to some usable block that has been connected once
and is as good as the tip: the node can always return to it.
-/

namespace DogeCash.BlockIndex

variable {Ptr : Type} {s t : BlockIndex Ptr} {a b c p r : Ptr}

/-- A linked block without a failed ancestor. -/
structure Usable (s : BlockIndex Ptr) (b : Ptr) : Prop where
  known : b ∈ s.tree.blocks
  linked : (s.marks b).nChainTx ≠ 0
  unfailed : ∀ a, s.tree.IsAncestor a b → (s.marks a).failed = false

/-- The genesis block, or a block whose scripts have been checked. -/
def Validated (s : BlockIndex Ptr) (b : Ptr) : Prop :=
  s.tree.pprev b = none ∨ (s.marks b).validity = .scripts

theorem Usable.ancestor (sound : s.Sound) (usable : s.Usable b) (above : s.tree.IsAncestor a b) :
    s.Usable a := by
  have data := sound.linking.hasChainData usable.known usable.linked
  refine ⟨above.mem usable.known, ?_, fun x higher => usable.unfailed x (higher.trans above)⟩
  refine (sound.linking.nChainTx_ne_zero_iff (above.mem usable.known)).mpr fun x higher => ?_
  exact data x (higher.trans above)

theorem Validity.eq_scripts {validity : Validity}
    (high : Validity.scripts.level ≤ validity.level) : validity = .scripts := by
  cases validity <;> simp [Validity.level] at high ⊢

theorem recordScripts_validity {marks : BlockMarks} (unfailed : marks.failed = false) :
    marks.recordScripts.validity = .scripts := by
  unfold BlockMarks.recordScripts
  split
  · have recorded : { marks with haveUndo := true }.failed = false := unfailed
    exact Validity.eq_scripts (BlockMarks.level_le_raiseValidity recorded .scripts)
  · rename_i valid
    simp only [BlockMarks.isValid, unfailed, Bool.not_false, Bool.true_and, Bool.or_eq_true,
      Bool.not_eq_true', decide_eq_false_iff_not, not_or, not_not] at valid
    exact Validity.eq_scripts valid.2

theorem rank_eq (tree : t.tree = s.tree) (marks : ∀ x, (s.marks x).Advance (t.marks x)) (x : Ptr) :
    t.rank x = s.rank x := by
  rw [rank, rank, tree, (marks x).nSequenceId]

variable [LinearOrder Ptr]

theorem advance_failBlock (x : Ptr) : (s.marks x).Advance ((s.failBlock b).marks x) := by
  rw [failBlock_marks]
  split
  · exact .setFailedValid _
  · exact .refl _

/-- The candidates are complete with respect to a block. -/
structure Reference (s : BlockIndex Ptr) (r : Ptr) : Prop where
  usable : s.Usable r
  validated : s.Validated r
  tip_le : s.rank s.tip ≤ s.rank r
  covers : ∀ b, s.Usable b → s.rank r ≤ s.rank b → b ∈ s.setBlockIndexCandidates

/-- The tip is usable and the candidates are complete with respect to a block at least as
good. Blocks with data have passed the checks that need no predecessors, and the checks
that do are passed in order. -/
structure Covering (s : BlockIndex Ptr) : Prop where
  level : ∀ b ∈ s.tree.blocks, (s.marks b).haveData = true → (s.marks b).failed = false →
    Validity.transactions.level ≤ (s.marks b).validity.level
  closed : ∀ b p, s.tree.pprev b = some p → (s.marks b).validity = .scripts → s.Validated p
  tipUsable : s.Usable s.tip
  tipValidated : s.Validated s.tip
  reference : ∃ r, s.Reference r

structure Complete (s : BlockIndex Ptr) : Prop extends Sound s, Covering s

namespace Complete

section

variable (complete : s.Complete)
include complete

theorem validated_ancestor (validated : s.Validated b) (above : s.tree.IsAncestor a b) :
    s.Validated a := by
  refine DogeCash.IsAncestor.induct s.Validated above validated fun child parent link here => ?_
  rcases here with root | scripts
  · rw [link] at root
    cases root
  · exact complete.closed child parent link scripts

theorem setTip (usable : s.Usable b) (validated : s.Validated b) :
    { s with tip := b }.Complete := by
  obtain ⟨r, reference⟩ := complete.reference
  refine ⟨complete.toSound.setTip usable.known, complete.level, complete.closed,
    ⟨usable.known, usable.linked, usable.unfailed⟩, validated, ?_⟩
  rcases lt_or_ge (s.rank r) (s.rank b) with higher | lower
  · refine ⟨b, ⟨usable.known, usable.linked, usable.unfailed⟩, validated, le_refl _, ?_⟩
    intro x good above
    exact reference.covers x ⟨good.known, good.linked, good.unfailed⟩
      (le_trans (le_of_lt higher) above)
  · refine ⟨r, ⟨reference.usable.known, reference.usable.linked, reference.usable.unfailed⟩,
      reference.validated, lower, ?_⟩
    intro x good above
    exact reference.covers x ⟨good.known, good.linked, good.unfailed⟩ above

theorem lowerTip (lower : s.tree.IsAncestor b s.tip) : { s with tip := b }.Complete := by
  apply complete.setTip
  · exact complete.tipUsable.ancestor complete.toSound lower
  · exact complete.validated_ancestor complete.tipValidated lower

/-- **What keeps the candidates complete**: no flag is cleared, usable blocks that have
passed all checks stay usable, and no usable block as good as the tip is removed. -/
theorem advance (sound : t.Sound) (tree : t.tree = s.tree) (tip : t.tip = s.tip)
    (marks : ∀ x, (s.marks x).Advance (t.marks x))
    (closed : ∀ b p, s.tree.pprev b = some p → (t.marks b).validity = .scripts →
      (s.marks b).validity = .scripts ∨ s.Validated p) (stays : ∀ b, s.Usable b → s.Validated b →
      ∀ a, s.tree.IsAncestor a b → (t.marks a).failed = false)
    (candidates : ∀ b, s.Usable b → t.Usable b → s.rank s.tip ≤ s.rank b →
      b ∈ s.setBlockIndexCandidates → b ∈ t.setBlockIndexCandidates) : t.Complete := by
  have ranks := rank_eq tree marks
  have unfailed : ∀ x, (t.marks x).failed = false → (s.marks x).failed = false := by
    intro x clean
    by_contra isFailed
    rw [(marks x).failed (by simpa using isFailed)] at clean
    cases clean
  have usableBefore : ∀ x, t.Usable x → s.Usable x := by
    rintro x ⟨known, linked, clean⟩
    rw [tree] at known clean
    rw [(marks x).nChainTx] at linked
    exact ⟨known, linked, fun a above => unfailed a (clean a above)⟩
  have usableAfter : ∀ x, s.Usable x → s.Validated x → t.Usable x := by
    intro x usable validated
    refine ⟨?_, ?_, ?_⟩
    · rw [tree]
      exact usable.known
    · rw [(marks x).nChainTx]
      exact usable.linked
    · rw [tree]
      exact stays x usable validated
  have validatedAfter : ∀ x, s.Validated x → t.Validated x := by
    rintro x (root | scripts)
    · exact .inl (by rw [tree]; exact root)
    · refine .inr (Validity.eq_scripts ?_)
      have high := (marks x).level
      rwa [scripts] at high
  obtain ⟨r, reference⟩ := complete.reference
  refine ⟨sound, ?_, ?_, ?_, ?_, r, ?_⟩
  · intro x known data clean
    rw [tree] at known
    rw [(marks x).haveData] at data
    exact Nat.le_trans (complete.level x known data (unfailed x clean)) (marks x).level
  · intro x p above scripts
    rw [tree] at above
    rcases closed x p above scripts with before | validated
    · exact validatedAfter p (complete.closed x p above before)
    · exact validatedAfter p validated
  · rw [tip]
    exact usableAfter s.tip complete.tipUsable complete.tipValidated
  · rw [tip]
    exact validatedAfter s.tip complete.tipValidated
  · refine ⟨usableAfter r reference.usable reference.validated,
      validatedAfter r reference.validated, ?_, ?_⟩
    · rw [ranks, ranks, tip]
      exact reference.tip_le
    · intro x good above
      rw [ranks, ranks] at above
      have before := usableBefore x good
      exact candidates x before good (le_trans reference.tip_le above)
        (reference.covers x before above)

theorem invalidChainFound : (s.invalidChainFound b).Complete :=
  complete.advance complete.toSound.invalidChainFound rfl rfl (fun _ => .refl _)
    (fun _ _ _ => .inl) (fun _ usable _ => usable.unfailed) (fun _ _ _ _ => id)

theorem pruneBlockIndexCandidates (result : s.pruneBlockIndexCandidates = some t) : t.Complete := by
  have sound := complete.toSound.pruneBlockIndexCandidates result
  rw [pruneBlockIndexCandidates_eq_some result] at sound ⊢
  refine complete.advance sound rfl rfl (fun _ => .refl _) (fun _ _ _ => .inl)
    (fun _ usable _ => usable.unfailed) fun b _ _ asGood mem => ?_
  refine List.mem_filter.mpr ⟨mem, ?_⟩
  rw [Bool.not_eq_true', ← Bool.not_eq_true, workLess_iff]
  exact not_lt_of_ge asGood

theorem recordScripts (above : s.tree.pprev b = some s.tip) :
    (s.mark b BlockMarks.recordScripts).Complete := by
  refine complete.advance complete.toSound.recordScripts rfl rfl
    (s.advance_mark (BlockMarks.advance_recordScripts _)) ?_ ?_ (fun _ _ _ _ => id)
  · intro x p parent scripts
    rw [mark_marks] at scripts
    split at scripts
    · rename_i same
      rw [same, above] at parent
      cases parent
      exact .inr complete.tipValidated
    · exact .inl scripts
  · intro x usable _ a higher
    have clean := usable.unfailed a higher
    rw [mark_marks]
    split
    · rename_i same
      rw [BlockMarks.failed_recordScripts, ← same]
      exact clean
    · exact clean

theorem failBlock (new : ¬ s.Validated b) : (s.failBlock b).Complete := by
  refine complete.advance complete.toSound.failBlock rfl rfl advance_failBlock ?_ ?_ ?_
  · intro x p _ scripts
    rw [failBlock_marks] at scripts
    split at scripts
    · exact .inl scripts
    · exact .inl scripts
  · intro x usable validated a higher
    -- The ancestors of a block that has passed all checks have passed them too.
    have ne : a ≠ b := by
      rintro rfl
      exact new (complete.validated_ancestor validated higher)
    rw [failBlock_marks, if_neg ne]
    exact usable.unfailed a higher
  · intro x _ usable _ mem
    refine List.mem_filter.mpr ⟨mem, ?_⟩
    have ne : x ≠ b := by
      rintro rfl
      have clean := usable.unfailed x (BlockTree.isAncestor_refl x)
      rw [failBlock_marks, if_pos rfl] at clean
      cases clean
    simpa using ne

theorem invalidBlockFound {corruptionPossible : Bool}
    (new : corruptionPossible = false → ¬ s.Validated b) :
    (s.invalidBlockFound b corruptionPossible).Complete := by
  unfold BlockIndex.invalidBlockFound
  split
  · exact complete
  · rename_i certain
    apply Complete.invalidChainFound
    apply complete.failBlock
    exact new (by simpa using certain)

theorem discard {pindexNew pindexTest : Ptr} (onBranch : pindexTest ∈ s.branch pindexNew)
    (isFailed : (s.marks pindexTest).failed = true) :
    (s.discard pindexNew pindexTest).Complete := by
  have sound := complete.toSound.discard onBranch isFailed
  -- No ancestor of a usable block is on the branch above the failed one.
  have apart : ∀ x, s.Usable x → ∀ a, s.tree.IsAncestor a x →
      a ∉ s.branchAbove pindexNew pindexTest ∧ a ≠ pindexTest := by
    intro x usable a higher
    refine ⟨fun above => ?_, ?_⟩
    · have lower := isAncestor_of_mem_branchAbove onBranch above
      rw [usable.unfailed pindexTest (lower.trans higher)] at isFailed
      cases isFailed
    · rintro rfl
      rw [usable.unfailed a higher] at isFailed
      cases isFailed
  simp only [BlockIndex.discard, isFailed, ↓reduceIte] at sound ⊢
  refine complete.advance sound rfl rfl ?_ ?_ ?_ ?_
  · intro x
    dsimp only
    split
    · exact .setFailedChild _
    · exact .refl _
  · intro x p _ scripts
    dsimp only at scripts
    split at scripts
    · exact .inl scripts
    · exact .inl scripts
  · intro x usable _ a higher
    dsimp only
    rw [if_neg (apart x usable a higher).1]
    exact usable.unfailed a higher
  · intro x usable _ _ mem
    refine List.mem_filter.mpr ⟨mem, ?_⟩
    simpa using apart x usable x (BlockTree.isAncestor_refl x)

end

end Complete

/-- What the search for the best chain leaves as it is. -/
structure Searched (s t : BlockIndex Ptr) : Prop where
  tree : t.tree = s.tree
  validity : ∀ x, (t.marks x).validity = (s.marks x).validity
  complete : t.Complete

theorem Searched.discard {pindexNew pindexTest : Ptr} (searched : Searched s t)
    (mem : pindexNew ∈ t.setBlockIndexCandidates) (onBranch : pindexTest ∈ t.branch pindexNew)
    (unusable : (t.marks pindexTest).failed = true ∨ (t.marks pindexTest).haveData = false) :
    Searched s (t.discard pindexNew pindexTest) := by
  have isFailed := searched.complete.failed_of_unusable mem onBranch unusable
  refine ⟨?_, fun x => ?_, searched.complete.discard onBranch isFailed⟩
  · simp only [BlockIndex.discard, isFailed, ↓reduceIte]
    exact searched.tree
  · rw [← searched.validity x]
    simp only [BlockIndex.discard, isFailed, ↓reduceIte]
    split
    · rfl
    · rfl

theorem Complete.usable_of_scan (complete : s.Complete) (mem : c ∈ s.setBlockIndexCandidates)
    (scanned : s.scan (s.branch c) = some none) : s.Usable c := by
  obtain ⟨known, linked⟩ := complete.candidates c mem
  refine ⟨known, linked, fun a above => ?_⟩
  by_cases active : s.tree.IsAncestor a s.tip
  · exact complete.tipUsable.unfailed a active
  · exact (scan_eq_usable scanned a (mem_branch.mpr ⟨above, active⟩)).1

theorem Complete.findMostWorkChain {found : Option Ptr} (complete : s.Complete)
    (result : s.findMostWorkChain = some (found, t)) :
    Searched s t ∧ ∃ pindexMostWork, found = some pindexMostWork ∧ t.Usable pindexMostWork ∧
      ∀ c ∈ t.setBlockIndexCandidates, t.rank c ≤ t.rank pindexMostWork := by
  obtain ⟨searched, best, empty⟩ := findMostWorkChainLoop_eq_some
    (fun before pindexNew pindexTest searched => Searched.discard searched)
    (Nat.lt_succ_self _) result ⟨rfl, fun _ => rfl, complete⟩
  refine ⟨searched, ?_⟩
  cases found with
  | none =>
    -- The reference is always a candidate.
    obtain ⟨r, reference⟩ := searched.complete.reference
    have mem := reference.covers r reference.usable (le_refl _)
    rw [empty rfl] at mem
    cases mem
  | some pindexMostWork =>
    obtain ⟨greatest, scanned⟩ := best pindexMostWork rfl
    have mem : pindexMostWork ∈ t.setBlockIndexCandidates := List.argmax_mem greatest
    refine ⟨pindexMostWork, rfl, searched.complete.usable_of_scan mem scanned, ?_⟩
    exact fun c candidate => List.le_of_mem_argmax candidate greatest

/-- The state while blocks are connected towards a usable block: the candidates only get
fewer, and the blocks above the tip have not been tried yet. -/
structure Connecting (s : BlockIndex Ptr) (pindexMostWork : Ptr) (t : BlockIndex Ptr) : Prop where
  tree : t.tree = s.tree
  complete : t.Complete
  usable : t.Usable pindexMostWork
  candidates : t.setBlockIndexCandidates ⊆ s.setBlockIndexCandidates
  rank : ∀ x, t.rank x = s.rank x
  untried : ∀ x, t.tree.nHeight t.tip < t.tree.nHeight x →
    (t.marks x).validity = (s.marks x).validity

/-- What a step towards the best candidate leaves. -/
structure Stepped (s t : BlockIndex Ptr) : Prop where
  complete : t.Complete
  candidates : t.setBlockIndexCandidates ⊆ s.setBlockIndexCandidates
  rank : ∀ x, t.rank x = s.rank x

theorem Usable.recordScripts (usable : s.Usable c) :
    (s.mark b BlockMarks.recordScripts).Usable c := by
  refine ⟨usable.known, ?_, fun a above => ?_⟩
  · rw [(s.advance_mark (BlockMarks.advance_recordScripts _) c).nChainTx]
    exact usable.linked
  · have clean := usable.unfailed a above
    rw [mark_marks]
    split
    · rename_i same
      rw [BlockMarks.failed_recordScripts, ← same]
      exact clean
    · exact clean

omit [LinearOrder Ptr] in
theorem Usable.of_pprev (usable : s.Usable p) (above : s.tree.pprev b = some p)
    (linked : (s.marks b).nChainTx ≠ 0) (unfailed : (s.marks b).failed = false) : s.Usable b := by
  refine ⟨(s.tree.known b p above).1, linked, fun a higher => ?_⟩
  rcases BlockTree.isAncestor_iff_pprev.mp higher with rfl | ⟨q, link, rest⟩
  · exact unfailed
  · rw [above] at link
    cases link
    exact usable.unfailed a rest

theorem Complete.connectTip {outcome : ConnectOutcome} (complete : s.Complete)
    (usable : outcome = .connected → s.Usable b)
    (new : outcome = .invalid false → ¬ s.Validated b)
    (result : s.connectTip b outcome = some t) : t.Complete := by
  obtain ⟨above, cases⟩ := connectTip_eq_some result
  rcases cases with ⟨connected, rfl⟩ | ⟨corruptionPossible, rfl, rfl⟩ | ⟨-, rfl⟩ | ⟨-, rfl⟩
  · have recorded := complete.recordScripts above
    have good := usable connected
    apply recorded.setTip good.recordScripts
    refine .inr ?_
    rw [mark_marks, if_pos rfl]
    exact recordScripts_validity (good.unfailed b (BlockTree.isAncestor_refl b))
  · apply complete.invalidBlockFound
    rintro rfl
    exact new rfl
  · exact complete.recordScripts above
  · exact complete

theorem Complete.disconnectTip {disconnects flag : Bool} (complete : s.Complete)
    (result : s.disconnectTip disconnects = some (flag, t)) : t.Complete := by
  rcases disconnectTip_eq_some result with ⟨-, rfl, -⟩ | ⟨-, p, above, rfl⟩
  · exact complete
  · exact complete.lowerTip (BlockTree.isAncestor_of_pprev above)

/-- No block that is found invalid when it is connected was validated before. -/
def NoneLost (s : BlockIndex Ptr) (env : ActivationEnv Ptr) : Prop :=
  ∀ b ∈ s.tree.blocks, env.connects b = .invalid false → ¬ s.Validated b

theorem Connecting.connected {pindexMostWork : Ptr} (connecting : Connecting s pindexMostWork t)
    (above : t.tree.pprev b = some t.tip)
    (complete : { t.mark b BlockMarks.recordScripts with tip := b }.Complete) :
    Connecting s pindexMostWork { t.mark b BlockMarks.recordScripts with tip := b } := by
  have recorded : (t.mark b BlockMarks.recordScripts).Usable pindexMostWork :=
    connecting.usable.recordScripts
  have grown := t.tree.grows b t.tip above
  refine ⟨connecting.tree, complete, ⟨recorded.known, recorded.linked, recorded.unfailed⟩,
    connecting.candidates, fun x => ?_, fun x higher => ?_⟩
  · rw [← connecting.rank x]
    apply rank_eq
    · rfl
    · exact t.advance_mark (BlockMarks.advance_recordScripts (t.marks b))
  · have later : t.tree.nHeight b < t.tree.nHeight x := higher
    have ne : x ≠ b := by
      rintro rfl
      exact absurd later (Nat.lt_irrefl _)
    have before := connecting.untried x (by omega)
    rw [← before]
    rw [mark_marks, if_neg ne]

section

variable {pindexMostWork : Ptr} (connecting : Connecting s pindexMostWork t)
include connecting

variable {after : BlockIndex Ptr}

theorem Connecting.prunes (result : t.pruneBlockIndexCandidates = some after) :
    Connecting s pindexMostWork after := by
  have complete := connecting.complete.pruneBlockIndexCandidates result
  have usable := connecting.usable
  rw [pruneBlockIndexCandidates_eq_some result] at complete ⊢
  refine ⟨connecting.tree, complete, ⟨usable.known, usable.linked, usable.unfailed⟩,
    fun c mem => ?_, connecting.rank, connecting.untried⟩
  exact connecting.candidates (List.mem_of_mem_filter mem)

theorem Connecting.stops {outcome : ConnectOutcome} (ending : outcome ≠ .connected)
    (complete : after.Complete) (result : t.connectTip b outcome = some after) :
    Stepped s after := by
  obtain ⟨-, cases⟩ := connectTip_eq_some result
  rcases cases with ⟨connected, -⟩ | ⟨corruptionPossible, -, rfl⟩ | ⟨-, rfl⟩ | ⟨-, rfl⟩
  · exact absurd connected ending
  · unfold BlockIndex.invalidBlockFound at complete ⊢
    split at complete
    · rename_i possible
      rw [if_pos possible]
      exact ⟨complete, connecting.candidates, connecting.rank⟩
    · rename_i certain
      rw [if_neg certain]
      refine ⟨complete, fun c mem => ?_, fun x => ?_⟩
      · exact connecting.candidates (List.mem_of_mem_filter mem)
      · rw [← connecting.rank x]
        apply rank_eq
        · rfl
        · exact advance_failBlock
  · refine ⟨complete, connecting.candidates, fun x => ?_⟩
    rw [← connecting.rank x]
    apply rank_eq
    · rfl
    · exact t.advance_mark (BlockMarks.advance_recordScripts (t.marks b))
  · exact ⟨complete, connecting.candidates, connecting.rank⟩

theorem Connecting.new {env : ActivationEnv Ptr} (noneLost : s.NoneLost env)
    (above : t.tree.pprev b = some t.tip) (found : env.connects b = .invalid false) :
    ¬ t.Validated b := by
  have grown := t.tree.grows b t.tip above
  have known := (t.tree.known b t.tip above).1
  have before := connecting.untried b (by omega)
  rw [connecting.tree] at known
  rw [Validated, connecting.tree, before]
  exact noneLost b known found

end

variable {env : ActivationEnv Ptr} {pindexMostWork : Ptr}

theorem keptByConnecting_complete (noneLost : s.NoneLost env) :
    KeptByConnecting env pindexMostWork s.tree (Connecting s pindexMostWork) (Stepped s) where
  sameTree _ connecting := connecting.tree
  connects b before after onChain connecting _ result := by
    obtain ⟨above, cases⟩ := connectTip_eq_some result
    rw [← connecting.tree] at onChain
    have usable := connecting.usable.ancestor connecting.complete.toSound onChain
    have complete := connecting.complete.connectTip (fun _ => usable)
      (fun impossible => (by cases impossible)) result
    rcases cases with ⟨-, rfl⟩ | ⟨_, impossible, -⟩ | ⟨impossible, -⟩ | ⟨impossible, -⟩
    · exact connecting.connected above complete
    · cases impossible
    · cases impossible
    · cases impossible
  stops b before after _ connecting ending result := by
    obtain ⟨above, -⟩ := connectTip_eq_some result
    refine connecting.stops ending ?_ result
    exact connecting.complete.connectTip (fun connected => absurd connected ending)
      (connecting.new noneLost above) result
  prunes _ _ connecting result := connecting.prunes result
  blames _ _ stepped := ⟨stepped.complete.invalidChainFound, stepped.candidates, stepped.rank⟩
  ends _ connecting := ⟨connecting.complete, connecting.candidates, connecting.rank⟩

theorem Complete.activateBestChainStep {flag : Bool} (complete : s.Complete)
    (usable : s.Usable pindexMostWork) (noneLost : s.NoneLost env)
    (result : s.activateBestChainStep env pindexMostWork = some (flag, t)) : Stepped s t := by
  refine (keptByConnecting_complete noneLost).activateBestChainStep (fun tip lower => ?_) result
  exact {
    tree := rfl
    complete := complete.lowerTip lower
    usable := ⟨usable.known, usable.linked, usable.unfailed⟩
    candidates := List.Subset.refl _
    rank _ := rfl
    untried _ _ := rfl }

theorem Searched.noneLost (searched : Searched s t) (noneLost : s.NoneLost env) :
    t.NoneLost env := by
  intro b known found validated
  rw [searched.tree] at known
  refine noneLost b known found ?_
  rwa [Validated, searched.tree, searched.validity] at validated

/-- A round of `ActivateBestChain` keeps the candidates complete, and a round that returns
true leaves the best of them as the tip. -/
theorem Complete.activateBestChain {reply : Reply} (complete : s.Complete)
    (noneLost : s.NoneLost env) (result : s.activateBestChain env = some (reply, t)) :
    t.Complete ∧ (reply = .returned true →
      ∀ c ∈ t.setBlockIndexCandidates, t.rank c ≤ t.rank t.tip) := by
  obtain ⟨found, middle, search, rest⟩ := activateBestChain_eq_some result
  obtain ⟨searched, pindexMostWork, rfl, usable, best⟩ := complete.findMostWorkChain search
  rcases rest with ⟨rfl, atTip⟩ | ⟨pindex, flag, same, stepped, reached⟩
  · refine ⟨searched.complete, fun _ => ?_⟩
    rcases atTip with impossible | atTip
    · cases impossible
    · cases atTip
      exact best
  · cases same
    have after := searched.complete.activateBestChainStep usable (searched.noneLost noneLost)
      stepped
    refine ⟨after.complete, fun returned c mem => ?_⟩
    rw [after.rank, after.rank, ← reached returned]
    exact best c (after.candidates mem)

/-- The active tip is settled: the candidates have every block that sorts at least as high
as the tip, has all its ancestors' data and no invalid ancestor, and no such block has more
work than the tip. -/
structure Settled (s : BlockIndex Ptr) : Prop where
  candidates : ∀ b ∈ s.tree.blocks,
    (∀ a, s.tree.IsAncestor a b → (s.marks a).haveData = true) →
    (∀ a, s.tree.IsAncestor a b → (s.marks a).failedValid = false) →
    s.workLess b s.tip = false → b ∈ s.setBlockIndexCandidates
  work : ∀ b ∈ s.tree.blocks,
    (∀ a, s.tree.IsAncestor a b → (s.marks a).haveData = true) →
    (∀ a, s.tree.IsAncestor a b → (s.marks a).failedValid = false) →
    s.tree.nChainWork b ≤ s.tree.nChainWork s.tip

omit [LinearOrder Ptr] in
theorem Sound.usable (sound : s.Sound) (known : b ∈ s.tree.blocks) (data : s.HasChainData b)
    (clean : ∀ a, s.tree.IsAncestor a b → (s.marks a).failedValid = false) : s.Usable b := by
  refine ⟨known, (sound.linking.nChainTx_ne_zero_iff known).mpr data, fun a above => ?_⟩
  exact sound.consistent.failed a (above.mem known) fun x higher => clean x (higher.trans above)

/-- **Where the tip is the best candidate, it is settled.** -/
theorem Complete.settled (complete : s.Complete)
    (best : ∀ c ∈ s.setBlockIndexCandidates, s.rank c ≤ s.rank s.tip) : s.Settled := by
  obtain ⟨r, reference⟩ := complete.reference
  have lower : s.rank r ≤ s.rank s.tip := best r (reference.covers r reference.usable (le_refl _))
  have covers : ∀ b, s.Usable b → s.rank s.tip ≤ s.rank b → b ∈ s.setBlockIndexCandidates :=
    fun b usable asGood => reference.covers b usable (le_trans lower asGood)
  constructor
  · intro b known data clean asGood
    refine covers b (complete.usable known data clean) ?_
    rw [← Bool.not_eq_true, workLess_iff] at asGood
    exact not_lt.mp asGood
  · intro b known data clean
    have below : s.rank b ≤ s.rank s.tip := by
      rcases le_total (s.rank b) (s.rank s.tip) with worse | better
      · exact worse
      · exact best b (covers b (complete.usable known data clean) better)
    rw [rank, rank, Prod.Lex.toLex_le_toLex] at below
    rcases below with less | ⟨equal, -⟩
    · exact Nat.le_of_lt less
    · exact Nat.le_of_eq equal

end DogeCash.BlockIndex
