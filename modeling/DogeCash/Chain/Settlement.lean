import DogeCash.Chain.Candidates

/-! # When the active tip is the best one

The candidates stay complete when entries are added, when data arrive and when a block is
invalidated. They do not when a block that has passed all checks before is found invalid as
it is connected again, and when `InvalidateBlock` fails on its way: both lower the tip and
leave out blocks that were no match for the old one.
-/

namespace DogeCash.BlockIndex

variable {Ptr : Type} [LinearOrder Ptr] {s t : BlockIndex Ptr} {a b c p : Ptr}

section Data

variable {prev : Ptr} {nProof nTx : ℕ}

/-- Data that arrive keep the candidates complete: linked blocks stay linked and keep their
place, and a new one becomes a candidate unless it is worse than the tip. -/
theorem Covering.receives (covering : s.Covering) (tree : t.tree = s.tree) (tip : t.tip = s.tip)
    (failed : ∀ x, (t.marks x).failed = (s.marks x).failed)
    (scripts : ∀ x, (t.marks x).validity = .scripts ↔ (s.marks x).validity = .scripts)
    (level : ∀ x ∈ s.tree.blocks, (t.marks x).haveData = true → (s.marks x).failed = false →
      Validity.transactions.level ≤ (t.marks x).validity.level)
    (linked : ∀ x, (s.marks x).nChainTx ≠ 0 → t.marks x = s.marks x)
    (kept : s.setBlockIndexCandidates ⊆ t.setBlockIndexCandidates)
    (new : ∀ x, (s.marks x).nChainTx = 0 → (t.marks x).nChainTx ≠ 0 →
      t.rank t.tip ≤ t.rank x → x ∈ t.setBlockIndexCandidates) : t.Covering := by
  have validated : ∀ x, t.Validated x ↔ s.Validated x := by
    intro x
    rw [Validated, Validated, tree, scripts]
  have usable : ∀ x, s.Usable x → t.Usable x := by
    intro x good
    refine ⟨?_, ?_, fun a above => ?_⟩
    · rw [tree]
      exact good.known
    · rw [linked x good.linked]
      exact good.linked
    · rw [tree] at above
      rw [failed]
      exact good.unfailed a above
  have ranks : ∀ x, (s.marks x).nChainTx ≠ 0 → t.rank x = s.rank x := by
    intro x isLinked
    rw [rank, rank, tree, linked x isLinked]
  obtain ⟨r, reference⟩ := covering.reference
  have tipRank : t.rank t.tip = s.rank s.tip := by
    rw [tip, ranks s.tip covering.tipUsable.linked]
  have referenceRank := ranks r reference.usable.linked
  refine ⟨?_, ?_, ?_, ?_, r, usable r reference.usable, (validated r).mpr reference.validated,
    ?_, ?_⟩
  · intro x known data clean
    rw [tree] at known
    rw [failed] at clean
    exact level x known data clean
  · intro x p above passed
    rw [tree] at above
    exact (validated p).mpr (covering.closed x p above ((scripts x).mp passed))
  · rw [tip]
    exact usable s.tip covering.tipUsable
  · rw [tip]
    exact (validated s.tip).mpr covering.tipValidated
  · rw [tipRank, referenceRank]
    exact reference.tip_le
  · intro x good above
    by_cases isLinked : (s.marks x).nChainTx = 0
    · refine new x isLinked good.linked (le_trans ?_ above)
      rw [tipRank, referenceRank]
      exact reference.tip_le
    · rw [referenceRank, ranks x isLinked] at above
      obtain ⟨known, -, clean⟩ := good
      rw [tree] at known clean
      refine kept (reference.covers x ⟨known, isLinked, fun a higher => ?_⟩ above)
      rw [← failed]
      exact clean a higher

theorem Covering.link (covering : s.Covering) (ready : s.Ready b) : (s.link b).Covering := by
  have kept : s.setBlockIndexCandidates ⊆ (s.link b).setBlockIndexCandidates := by
    intro c mem
    simp only [BlockIndex.link, addCandidate]
    split
    · exact mem
    · exact List.mem_insert_of_mem mem
  refine covering.receives rfl rfl (fun x => (link_failed x).1) (fun x => ?_)
    (fun x known data clean => ?_) (fun x isLinked => ?_) kept fun x unset set asGood => ?_
  · rw [(link_failed x).2.2]
  · rw [link_haveData] at data
    rw [(link_failed x).2.2]
    exact covering.level x known data clean
  · have ne : x ≠ b := by
      rintro rfl
      exact isLinked ready.unset
    rw [link_marks, Function.update_of_ne ne]
  · have same : x = b := by
      by_contra ne
      rw [link_nChainTx, if_neg ne] at set
      exact set unset
    rw [same] at asGood ⊢
    have notWorse : ¬ (s.link b).workLess b (s.link b).tip = true := by
      rw [workLess_iff]
      exact not_lt_of_ge asGood
    have inserted : (s.link b).setBlockIndexCandidates = s.setBlockIndexCandidates.insert b :=
      if_neg notWorse
    rw [inserted]
    exact List.mem_insert_self

theorem receive_validity_scripts (x : Ptr) : ((s.receive b nTx).marks x).validity = .scripts ↔
    (s.marks x).validity = .scripts := by
  by_cases same : x = b
  · subst same
    rw [receive_marks_self, BlockMarks.raiseValidity]
    split_ifs with isFailed lower
    · rfl
    · constructor
      · intro impossible
        cases impossible
      · intro passed
        have high : (s.marks x).validity.level < Validity.transactions.level := lower
        rw [passed] at high
        exact absurd high (by decide)
    · rfl
  · rw [receive_marks_of_ne same]

theorem Covering.receive (covering : s.Covering) (unset : (s.marks b).nChainTx = 0) :
    (s.receive b nTx).Covering := by
  refine covering.receives rfl rfl (fun x => ?_) receive_validity_scripts
    (fun x known data clean => ?_) (fun x isLinked => ?_) (List.Subset.refl _)
    fun x stillUnset set _ => ?_
  · by_cases same : x = b
    · subst same
      rw [receive_marks_self, BlockMarks.raiseValidity_eq]
      rfl
    · rw [receive_marks_of_ne same]
  · by_cases same : x = b
    · subst same
      rw [receive_marks_self]
      apply BlockMarks.level_le_raiseValidity
      exact clean
    · rw [receive_marks_of_ne same] at data ⊢
      exact covering.level x known data clean
  · have ne : x ≠ b := by
      rintro rfl
      exact isLinked unset
    exact receive_marks_of_ne ne
  · rw [receive_nChainTx unset] at set
    exact absurd stillUnset set

theorem Complete.receivedBlockTransactions (complete : s.Complete)
    (accepted : s.accepts b nTx = true) (fits : s.CountFits b nTx) :
    (s.receivedBlockTransactions b nTx).Complete := by
  obtain ⟨known, missing, -⟩ := accepts_iff.mp accepted
  have unset := complete.linking.nChainTx_eq_zero known missing
  have sound := complete.toSound.receivedBlockTransactions accepted fits
  refine ⟨sound, ?_⟩
  apply (complete.linking.receivedBlockTransactions complete.treeValid accepted fits
    (fun before a rest _ ready covering => Covering.link covering ready) ?_
    (complete.toCovering.receive unset)).2
  intro p _ covering
  obtain ⟨level, closed, ⟨known, linked, unfailed⟩, tipValidated, r, reference⟩ := covering
  refine ⟨level, closed, ⟨known, linked, unfailed⟩, tipValidated, r, ?_, reference.validated,
    reference.tip_le, fun x good => ?_⟩
  · exact ⟨reference.usable.known, reference.usable.linked, reference.usable.unfailed⟩
  · exact reference.covers x ⟨good.known, good.linked, good.unfailed⟩

section Added

variable {x : Ptr}

section

variable (added : Added b prev nProof s t)
include added

theorem Added.usable_iff : t.Usable x ↔ s.Usable x := by
  constructor
  · rintro ⟨mem, linked, unfailed⟩
    rcases added.mem_iff.mp mem with rfl | known
    · rw [added.new] at linked
      exact absurd rfl linked
    · rw [added.marks x known] at linked
      refine ⟨known, linked, fun a above => ?_⟩
      rw [← added.marks a (above.mem known)]
      exact unfailed a ((added.isAncestor known).mpr above)
  · rintro ⟨known, linked, unfailed⟩
    refine ⟨added.mem_iff.mpr (.inr known), ?_, fun a above => ?_⟩
    · rw [added.marks x known]
      exact linked
    · have before := (added.isAncestor known).mp above
      rw [added.marks a (before.mem known)]
      exact unfailed a before

theorem Added.validated_iff (known : x ∈ s.tree.blocks) : t.Validated x ↔ s.Validated x := by
  rw [Validated, Validated, added.pprev known, added.marks x known]

theorem Added.rank (known : x ∈ s.tree.blocks) : t.rank x = s.rank x := by
  have ne : x ≠ b := ne_of_mem_of_not_mem known added.fresh
  have work : t.tree.nChainWork x = s.tree.nChainWork x := by
    rw [added.tree]
    exact Function.update_of_ne ne ..
  rw [BlockIndex.rank, BlockIndex.rank, work, added.marks x known]

end

theorem Complete.added (complete : s.Complete) (added : Added b prev nProof s t) : t.Complete := by
  obtain ⟨r, reference⟩ := complete.reference
  have knownTip := complete.tipUsable.known
  refine ⟨complete.toSound.added added, ?_, ?_, ?_, ?_, r, ?_, ?_, ?_, ?_⟩
  · intro x mem data clean
    rcases added.mem_iff.mp mem with rfl | known
    · rw [added.new] at data
      cases data
    · rw [added.marks x known] at data clean ⊢
      exact complete.level x known data clean
  · intro x p above passed
    rcases added.mem_iff.mp (t.tree.known x p above).1 with rfl | known
    · rw [added.new] at passed
      cases passed
    · rw [added.pprev known] at above
      rw [added.marks x known] at passed
      exact (added.validated_iff (s.tree.known x p above).2).mpr
        (complete.closed x p above passed)
  · rw [added.tip]
    exact added.usable_iff.mpr complete.tipUsable
  · rw [added.tip]
    exact (added.validated_iff knownTip).mpr complete.tipValidated
  · exact added.usable_iff.mpr reference.usable
  · exact (added.validated_iff reference.usable.known).mpr reference.validated
  · rw [added.tip, added.rank knownTip, added.rank reference.usable.known]
    exact reference.tip_le
  · intro x good above
    have before := added.usable_iff.mp good
    rw [added.rank reference.usable.known, added.rank before.known] at above
    rw [added.candidates]
    exact reference.covers x before above

end Added

end Data

section Invalidate

variable {disconnects : Ptr → Bool} {flag : Bool}

/-- Every active block from `b` up can be disconnected. -/
def CanWithdraw (s : BlockIndex Ptr) (disconnects : Ptr → Bool) (b : Ptr) : Prop :=
  ∀ a ∈ s.tree.lineage s.tip, s.tree.IsAncestor b a →
    (s.marks a).haveUndo = true ∧ disconnects a = true

theorem mem_restoreCandidates (known : c ∈ s.tree.blocks) (linked : (s.marks c).nChainTx ≠ 0)
    (valid : (s.marks c).isValid .transactions = true) (asGood : s.rank s.tip ≤ s.rank c) :
    c ∈ s.restoreCandidates.setBlockIndexCandidates := by
  have notWorse : s.workLess c s.tip = false := by
    rw [← Bool.not_eq_true, workLess_iff]
    exact not_lt_of_ge asGood
  refine List.mem_union_iff.mpr (.inr (List.mem_filter.mpr ⟨known, ?_⟩))
  simp [valid, linked, notWorse]

theorem Sound.complete_restoreCandidates (sound : s.Sound)
    (level : ∀ b ∈ s.tree.blocks, (s.marks b).haveData = true → (s.marks b).failed = false →
      Validity.transactions.level ≤ (s.marks b).validity.level)
    (closed : ∀ b p, s.tree.pprev b = some p → (s.marks b).validity = .scripts → s.Validated p)
    (usable : s.Usable s.tip) (validated : s.Validated s.tip) : s.restoreCandidates.Complete := by
  have tipUsable : s.restoreCandidates.Usable s.tip :=
    ⟨usable.known, usable.linked, usable.unfailed⟩
  refine ⟨sound.restoreCandidates, level, closed, tipUsable, validated, s.tip, tipUsable,
    validated, le_refl _, fun x good asGood => ?_⟩
  obtain ⟨known, linked, unfailed⟩ := good
  have clean : (s.marks x).failed = false := unfailed x (BlockTree.isAncestor_refl x)
  have data := (sound.linking.linked x known linked).1
  refine mem_restoreCandidates (s := s) known linked ?_ asGood
  simpa [BlockMarks.isValid, clean] using level x known data clean

theorem Withdrawn.marks_of_not_below {x : Ptr}
    (withdrawn : Withdrawn disconnects b flag (s.failBlock b) t)
    (apart : ¬ s.tree.IsAncestor b x) : t.marks x = s.marks x := by
  have ne : x ≠ b := by
    rintro rfl
    exact apart (BlockTree.isAncestor_refl x)
  rcases withdrawn.marks x with same | ⟨below, -⟩
  · rw [same, failBlock_marks, if_neg ne]
  · exact absurd below apart

theorem Withdrawn.advance (withdrawn : Withdrawn disconnects b flag (s.failBlock b) t) (x : Ptr) :
    (s.marks x).Advance (t.marks x) ∧ (t.marks x).validity = (s.marks x).validity := by
  rcases withdrawn.marks x with same | ⟨-, same⟩
  · rw [same]
    refine ⟨advance_failBlock x, ?_⟩
    rw [failBlock_marks]
    split <;> rfl
  · rw [same, failBlock_marks]
    split
    · exact ⟨⟨rfl, rfl, rfl, rfl, Nat.le_refl _, fun _ => rfl, fun _ => rfl⟩, rfl⟩
    · exact ⟨.setFailedChild _, rfl⟩

theorem Complete.invalidateBlock (complete : s.Complete)
    (withdraws : s.CanWithdraw disconnects b)
    (result : s.invalidateBlock disconnects b = some (flag, t)) : t.Complete := by
  have invalid : ((s.failBlock b).marks b).failedValid = true := by
    rw [failBlock_marks, if_pos rfl]
  simp only [BlockIndex.invalidateBlock] at result
  split at result
  · cases result
  · rename_i stuck walked
    obtain ⟨a, below, active, failing⟩ :=
      (disconnectInvalid_eq_some (Nat.lt_succ_self _) walked).stuck rfl
    rw [failBlock_haveUndo] at failing
    exact absurd (withdraws a (BlockTree.mem_lineage.mpr active) below) failing
  · rename_i lower walked
    obtain ⟨-, rfl⟩ := result
    have withdrawn := disconnectInvalid_eq_some (Nat.lt_succ_self _) walked
    have tree : lower.tree = s.tree := withdrawn.tree
    have descends : s.tree.IsAncestor lower.tip s.tip := withdrawn.tip
    have validated : ∀ x, s.Validated x → lower.Validated x := by
      intro x before
      rwa [Validated, tree, (withdrawn.advance x).2]
    refine Complete.invalidChainFound (Sound.complete_restoreCandidates
      (complete.toSound.failBlock.withdrawn invalid withdrawn) ?_ ?_ ?_ ?_)
    · intro x known data clean
      rw [tree] at known
      rw [(withdrawn.advance x).1.haveData] at data
      rw [(withdrawn.advance x).2]
      refine complete.level x known data ?_
      by_contra isFailed
      rw [(withdrawn.advance x).1.failed (by simpa using isFailed)] at clean
      cases clean
    · intro x p above passed
      rw [tree] at above
      rw [(withdrawn.advance x).2] at passed
      exact validated p (complete.closed x p above passed)
    · have before := complete.tipUsable.ancestor complete.toSound descends
      refine ⟨?_, ?_, fun a above => ?_⟩
      · rw [tree]
        exact before.known
      · rw [(withdrawn.advance lower.tip).1.nChainTx]
        exact before.linked
      · rw [tree] at above
        rw [withdrawn.marks_of_not_below fun below => withdrawn.away rfl (below.trans above)]
        exact before.unfailed a above
    · exact validated lower.tip (complete.validated_ancestor complete.tipValidated descends)

end Invalidate

theorem complete_genesis (b : Ptr) (nProof : ℕ) : (genesis b nProof).Complete := by
  have marks := genesis_marks b nProof
  have validated : (genesis b nProof).Validated b := .inl rfl
  have usable : (genesis b nProof).Usable b := by
    refine ⟨List.mem_cons_self, ?_, fun a above => ?_⟩
    · rw [marks]
      exact Nat.one_ne_zero
    · cases List.mem_singleton.mp (above.mem List.mem_cons_self)
      rw [marks]
      rfl
  refine ⟨sound_genesis b nProof, ?_, ?_, usable, validated, b, usable, validated, le_refl _,
    fun x good _ => good.known⟩
  · intro x mem _ _
    cases List.mem_singleton.mp mem
    rw [marks]
  · intro x p above _
    cases above

/-- The requests that keep the candidates complete. -/
def RequestKeeps (s : BlockIndex Ptr) : Request Ptr → Prop
  | .addToBlockIndex .. => True
  | .receivedBlockTransactions b nTx => s.CountFits b nTx
  | .activateBestChain env => s.NoneLost env
  | .invalidateBlock disconnects b => s.CanWithdraw disconnects b

/-- The calls that keep the candidates complete. Only linked blocks without a failure are
connected. -/
def CallKeeps (s : BlockIndex Ptr) : Call Ptr → Prop
  | .request request => s.RequestKeeps request
  | .connectTip b outcome =>
    (outcome = .connected → (s.marks b).nChainTx ≠ 0 ∧ (s.marks b).failed = false) ∧
      (outcome = .invalid false → ¬ s.Validated b)
  | .disconnectTip _ => True
  | .findMostWorkChain => True
  | .pruneBlockIndexCandidates => True
  | .invalidBlockFound b corruptionPossible => corruptionPossible = false → ¬ s.Validated b
  | .reconsiderBlock _ => False

theorem Complete.serve {request : Request Ptr} (complete : s.Complete)
    (keeps : s.RequestKeeps request) (result : serve request s = some t) : t.Complete := by
  cases request with
  | addToBlockIndex b prev nProof =>
    rcases addToBlockIndex_eq_some result with rfl | added
    · exact complete
    · exact complete.added added
  | receivedBlockTransactions b nTx =>
    obtain ⟨accepted, same⟩ := Option.ite_none_right_eq_some.mp result
    cases same
    exact complete.receivedBlockTransactions accepted keeps
  | activateBestChain env =>
    obtain ⟨⟨reply, after⟩, activated, rfl⟩ := Option.map_eq_some_iff.mp result
    exact (complete.activateBestChain keeps activated).1
  | invalidateBlock disconnects b =>
    obtain ⟨-, served⟩ := Option.ite_none_right_eq_some.mp result
    obtain ⟨⟨flag, after⟩, invalidated, rfl⟩ := Option.map_eq_some_iff.mp served
    exact complete.invalidateBlock keeps invalidated

/-- **Every call under the condition keeps the candidates complete.** -/
theorem Complete.perform {call : Call Ptr} (complete : s.Complete) (keeps : s.CallKeeps call)
    (result : perform call s = some t) : t.Complete := by
  cases call with
  | request request => exact complete.serve keeps result
  | connectTip b outcome =>
    obtain ⟨above, -⟩ := connectTip_eq_some result
    refine complete.connectTip (fun connected => ?_) keeps.2 result
    obtain ⟨linked, unfailed⟩ := keeps.1 connected
    exact complete.tipUsable.of_pprev above linked unfailed
  | disconnectTip disconnects =>
    obtain ⟨⟨flag, after⟩, moved, rfl⟩ := Option.map_eq_some_iff.mp result
    exact complete.disconnectTip moved
  | findMostWorkChain =>
    obtain ⟨⟨found, after⟩, searched, rfl⟩ := Option.map_eq_some_iff.mp result
    exact (complete.findMostWorkChain searched).1.complete
  | pruneBlockIndexCandidates => exact complete.pruneBlockIndexCandidates result
  | invalidBlockFound b corruptionPossible =>
    obtain ⟨-, same⟩ := Option.ite_none_right_eq_some.mp result
    cases same
    exact complete.invalidBlockFound keeps
  | reconsiderBlock b => exact keeps.elim

/-- **Whenever `ActivateBestChain` returns true, the tip is settled**, in every history in
which no block is found invalid that has passed all checks before, `InvalidateBlock` never
fails to disconnect a block, and no chain's 32-bit count of transactions comes to zero. -/
theorem settled_of_run (b : Ptr) (nProof : ℕ) (calls : List (Call Ptr)) (env : ActivationEnv Ptr)
    (middle final : BlockIndex Ptr)
    (runs : run perform calls (genesis b nProof) = some middle)
    (keeps : RunMeets perform CallKeeps calls (genesis b nProof)) (noneLost : middle.NoneLost env)
    (returned : middle.activateBestChain env = some (.returned true, final)) : final.Settled := by
  have complete : middle.Complete :=
    keeps.invariant Complete (fun _ _ _ keeps complete result => complete.perform keeps result)
      runs (complete_genesis b nProof)
  obtain ⟨after, best⟩ := complete.activateBestChain noneLost returned
  exact after.settled (best rfl)

section Decidable

instance (s : BlockIndex Ptr) (b : Ptr) : Decidable (s.Validated b) :=
  inferInstanceAs (Decidable (_ ∨ _))

instance (s : BlockIndex Ptr) (env : ActivationEnv Ptr) : Decidable (s.NoneLost env) :=
  inferInstanceAs (Decidable (∀ b ∈ s.tree.blocks, env.connects b = .invalid false →
    ¬ s.Validated b))

instance (s : BlockIndex Ptr) (disconnects : Ptr → Bool) (b : Ptr) :
    Decidable (s.CanWithdraw disconnects b) :=
  inferInstanceAs (Decidable (∀ a ∈ s.tree.lineage s.tip, s.tree.IsAncestor b a →
    (s.marks a).haveUndo = true ∧ disconnects a = true))

instance (s : BlockIndex Ptr) : (request : Request Ptr) → Decidable (s.RequestKeeps request)
  | .addToBlockIndex .. => isTrue trivial
  | .receivedBlockTransactions b nTx => inferInstanceAs (Decidable (s.CountFits b nTx))
  | .activateBestChain env => inferInstanceAs (Decidable (s.NoneLost env))
  | .invalidateBlock disconnects b => inferInstanceAs (Decidable (s.CanWithdraw disconnects b))

instance (s : BlockIndex Ptr) : (call : Call Ptr) → Decidable (s.CallKeeps call)
  | .request request => inferInstanceAs (Decidable (s.RequestKeeps request))
  | .connectTip b outcome => inferInstanceAs (Decidable
      ((outcome = .connected → (s.marks b).nChainTx ≠ 0 ∧ (s.marks b).failed = false) ∧
        (outcome = .invalid false → ¬ s.Validated b)))
  | .disconnectTip _ => isTrue trivial
  | .findMostWorkChain => isTrue trivial
  | .pruneBlockIndexCandidates => isTrue trivial
  | .invalidBlockFound b corruptionPossible =>
    inferInstanceAs (Decidable (corruptionPossible = false → ¬ s.Validated b))
  | .reconsiderBlock _ => isFalse id

end Decidable

def rejectingEnv (b : ℕ) : ActivationEnv ℕ where
  connects x := if x = b then .invalid false else .connected
  disconnects _ := true

/-- Block 3 on a branch of its own replaces block 1, and then a reorganisation to block 4
fails. -/
def failedReorganisation : List (Call ℕ) :=
  arrival 1 0 ++ arrival 2 0 ++ arrival 3 2 ++
    [.request (.addToBlockIndex 4 0 30), .request (.receivedBlockTransactions 4 1),
      .request (.activateBestChain (rejectingEnv 4))]

/-- The old branch is connected again, and the candidates are restored when its first block
is invalidated. -/
theorem settled_of_run_failedReorganisation :
    ∃ middle final, run perform (failedReorganisation ++
        [.request (.activateBestChain sampleEnv),
          .request (.invalidateBlock (fun _ => true) 2)]) (genesis 0 1) = some middle ∧
      middle.activateBestChain sampleEnv = some (.returned true, final) ∧ final.Settled := by
  have checked : ((run perform (failedReorganisation ++
      [.request (.activateBestChain sampleEnv),
        .request (.invalidateBlock (fun _ => true) 2)]) (genesis 0 1)).bind
      (·.activateBestChain sampleEnv)).any (·.1 = .returned true) = true := by
    decide
  obtain ⟨⟨reply, final⟩, activated, accepted⟩ := Option.any_eq_true _ _ |>.mp checked
  obtain ⟨middle, runs, returned⟩ := Option.bind_eq_some_iff.mp activated
  cases of_decide_eq_true accepted
  refine ⟨middle, final, runs, returned, settled_of_run 0 1 _ sampleEnv middle final runs
    (by decide) ?_ returned⟩
  intro b _ impossible
  cases impossible

/-- When the old branch is found invalid as it is connected again, block 1 is not among the
candidates, and the activation ends at the genesis block. -/
theorem not_settled_failedReorganisation :
    ∃ middle final, run perform (failedReorganisation ++
        [.request (.activateBestChain (rejectingEnv 2))]) (genesis 0 1) = some middle ∧
      middle.activateBestChain sampleEnv = some (.returned true, final) ∧ ¬ final.Settled := by
  have checked : ((run perform (failedReorganisation ++
      [.request (.activateBestChain (rejectingEnv 2))]) (genesis 0 1)).bind
      (·.activateBestChain sampleEnv)).any (fun result =>
        result.1 = .returned true && decide (1 ∈ result.2.tree.blocks) &&
          (result.2.tree.lineage 1).all (fun a => (result.2.marks a).haveData) &&
          (result.2.tree.lineage 1).all (fun a => !(result.2.marks a).failedValid) &&
          !result.2.workLess 1 result.2.tip &&
          decide (1 ∉ result.2.setBlockIndexCandidates)) = true := by
    decide
  obtain ⟨⟨reply, final⟩, activated, facts⟩ := Option.any_eq_true _ _ |>.mp checked
  obtain ⟨middle, runs, returned⟩ := Option.bind_eq_some_iff.mp activated
  simp only [Bool.and_eq_true, decide_eq_true_eq, List.all_eq_true, BlockTree.mem_lineage,
    Bool.not_eq_true'] at facts
  obtain ⟨⟨⟨⟨⟨rfl, known⟩, data⟩, clean⟩, asGood⟩, missing⟩ := facts
  refine ⟨middle, final, runs, returned, fun settled => ?_⟩
  exact missing (settled.candidates 1 known data clean asGood)

end DogeCash.BlockIndex
