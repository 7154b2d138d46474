import DogeCash.Chain.Activation
import DogeCash.Chain.Linking
import DogeCash.Foundation.Run

/-! # The failure flags of the block tree

A block that is marked as failed has an ancestor that was found invalid, or was found
invalid itself. All calls keep this but `ReconsiderBlock`, which clears the flags of the
descendants and of the ancestors of a block and not those of the branches beside it.
-/

namespace DogeCash.BlockIndex

open List (mem_filter mem_singleton)
open BlockTree (mem_lineage)

variable {Ptr : Type} {s t : BlockIndex Ptr} {a b c p : Ptr}

def Caused (s : BlockIndex Ptr) : Prop :=
  ∀ b ∈ s.tree.blocks, (s.marks b).failed = true →
    ∃ a, s.tree.IsAncestor a b ∧ (s.marks a).failedValid = true

def LinkedCandidates (s : BlockIndex Ptr) : Prop :=
  ∀ c ∈ s.setBlockIndexCandidates, c ∈ s.tree.blocks ∧ (s.marks c).nChainTx ≠ 0

/-- The tip, the flags and the candidates are as they should be. -/
structure Flagged (s : BlockIndex Ptr) : Prop where
  tip_mem : s.tip ∈ s.tree.blocks
  caused : s.Caused
  treeValid : s.TreeValid
  candidates : s.LinkedCandidates

structure Sound (s : BlockIndex Ptr) : Prop extends Flagged s where
  linking : s.Linking []

/-- What a call does that neither brings data nor clears flags. -/
structure Advance (s t : BlockIndex Ptr) : Prop where
  tree : t.tree = s.tree
  unlinked : t.mapBlocksUnlinked = s.mapBlocksUnlinked
  marks : ∀ b, (s.marks b).Advance (t.marks b)
  tip_mem : t.tip ∈ s.tree.blocks
  failed : ∀ b ∈ s.tree.blocks, (t.marks b).failed = true →
    (s.marks b).failed = true ∨ ∃ a, s.tree.IsAncestor a b ∧ (t.marks a).failedValid = true
  candidates : ∀ c ∈ t.setBlockIndexCandidates, c ∈ s.setBlockIndexCandidates ∨
    c ∈ s.tree.blocks ∧ (s.marks c).nChainTx ≠ 0

theorem Advance.sameData (advance : Advance s t) : SameData s t :=
  ⟨advance.tree, advance.unlinked, fun b => (advance.marks b).nTx,
    fun b => (advance.marks b).nChainTx, fun b => (advance.marks b).haveData⟩

/-- **An advance keeps the invariant.** -/
theorem Sound.advance (sound : s.Sound) (advance : Advance s t) : t.Sound := by
  refine ⟨⟨?_, ?_, ?_, ?_⟩, advance.sameData.linking sound.linking⟩
  · rw [advance.tree]
    exact advance.tip_mem
  · intro b mem isFailed
    rw [advance.tree] at mem ⊢
    rcases advance.failed b mem isFailed with before | found
    · obtain ⟨a, ancestor, invalid⟩ := sound.caused b mem before
      exact ⟨a, ancestor, (advance.marks a).failedValid invalid⟩
    · exact found
  · intro b mem
    rw [advance.tree] at mem
    exact Nat.le_trans (sound.treeValid b mem) (advance.marks b).level
  · intro c mem
    rw [advance.tree, (advance.marks c).nChainTx]
    rcases advance.candidates c mem with old | linked
    · exact sound.candidates c old
    · exact linked

theorem Sound.setTip (sound : s.Sound) (mem : b ∈ s.tree.blocks) : { s with tip := b }.Sound :=
  sound.advance {
    tree := rfl
    unlinked := rfl
    marks _ := .refl _
    tip_mem := mem
    failed _ _ isFailed := .inl isFailed
    candidates _ candidate := .inl candidate }

theorem Sound.setCandidates {candidates : List Ptr} (sound : s.Sound)
    (linked : ∀ c ∈ candidates, c ∈ s.setBlockIndexCandidates ∨
      c ∈ s.tree.blocks ∧ (s.marks c).nChainTx ≠ 0) :
    { s with setBlockIndexCandidates := candidates }.Sound :=
  sound.advance {
    tree := rfl
    unlinked := rfl
    marks _ := .refl _
    tip_mem := sound.tip_mem
    failed _ _ isFailed := .inl isFailed
    candidates := linked }

variable [LinearOrder Ptr]

theorem Sound.mark {change : BlockMarks → BlockMarks} (sound : s.Sound)
    (advance : (s.marks b).Advance (change (s.marks b)))
    (failed : (change (s.marks b)).failed = true → (s.marks b).failed = true ∨
      ∃ a, s.tree.IsAncestor a b ∧ ((s.mark b change).marks a).failedValid = true) :
    (s.mark b change).Sound := by
  refine sound.advance ⟨rfl, rfl, s.advance_mark advance, sound.tip_mem, ?_,
    fun _ candidate => .inl candidate⟩
  intro x _ isFailed
  rw [mark_marks] at isFailed
  split at isFailed
  · rename_i same
    rw [same]
    exact failed isFailed
  · exact .inl isFailed

theorem Sound.eraseCandidate (sound : s.Sound) : (s.eraseCandidate b).Sound :=
  sound.setCandidates fun _ mem => .inl (List.mem_of_mem_filter mem)

section

variable (sound : s.Sound)
include sound

omit [LinearOrder Ptr] in
theorem Sound.invalidChainFound : (s.invalidChainFound b).Sound :=
  sound.advance {
    tree := rfl
    unlinked := rfl
    marks _ := .refl _
    tip_mem := sound.tip_mem
    failed _ _ isFailed := .inl isFailed
    candidates _ candidate := .inl candidate }

theorem Sound.markFailedValid :
    (s.mark b fun marks => { marks with failedValid := true }).Sound := by
  refine sound.mark (.setFailedValid _) fun _ => .inr ⟨b, ?_, ?_⟩
  · exact BlockTree.isAncestor_refl b
  · rw [mark_marks, if_pos rfl]

theorem Sound.failBlock : (s.failBlock b).Sound := sound.markFailedValid.eraseCandidate

theorem Sound.invalidBlockFound {corruptionPossible : Bool} :
    (s.invalidBlockFound b corruptionPossible).Sound := by
  unfold BlockIndex.invalidBlockFound
  split
  · exact sound
  · exact sound.failBlock.invalidChainFound

theorem Sound.recordScripts : (s.mark b BlockMarks.recordScripts).Sound := by
  refine sound.mark (BlockMarks.advance_recordScripts _) fun isFailed => .inl ?_
  rwa [BlockMarks.failed_recordScripts] at isFailed

theorem Sound.connectTip {outcome : ConnectOutcome} (result : s.connectTip b outcome = some t) :
    t.Sound := by
  obtain ⟨above, cases⟩ := connectTip_eq_some result
  rcases cases with ⟨-, rfl⟩ | ⟨_, -, rfl⟩ | ⟨-, rfl⟩ | ⟨-, rfl⟩
  · exact sound.recordScripts.setTip (s.tree.known b s.tip above).1
  · exact sound.invalidBlockFound
  · exact sound.recordScripts
  · exact sound

end

omit [LinearOrder Ptr] in
theorem Sound.disconnectTip {disconnects flag : Bool} (sound : s.Sound)
    (result : s.disconnectTip disconnects = some (flag, t)) : t.Sound := by
  rcases disconnectTip_eq_some result with ⟨-, rfl, -⟩ | ⟨-, p, above, rfl⟩
  · exact sound
  · exact sound.setTip (s.tree.known s.tip p above).2

theorem Sound.pruneBlockIndexCandidates (sound : s.Sound)
    (result : s.pruneBlockIndexCandidates = some t) : t.Sound := by
  rw [pruneBlockIndexCandidates_eq_some result]
  exact sound.setCandidates fun _ mem => .inl (List.mem_of_mem_filter mem)

theorem Sound.restoreCandidates (sound : s.Sound) : s.restoreCandidates.Sound := by
  refine sound.setCandidates fun c mem => ?_
  rcases List.mem_union_iff.mp mem with old | new
  · exact .inl old
  · obtain ⟨known, chosen⟩ := mem_filter.mp new
    simp only [Bool.and_eq_true, decide_eq_true_eq] at chosen
    exact .inr ⟨known, chosen.1.2⟩

variable {pindexNew pindexTest : Ptr} {env : ActivationEnv Ptr} {flag : Bool}
    {disconnects : Ptr → Bool}

theorem Sound.failed_of_unusable (sound : s.Sound) (mem : pindexNew ∈ s.setBlockIndexCandidates)
    (onBranch : pindexTest ∈ s.branch pindexNew)
    (unusable : (s.marks pindexTest).failed = true ∨ (s.marks pindexTest).haveData = false) :
    (s.marks pindexTest).failed = true := by
  obtain ⟨known, linked⟩ := sound.candidates pindexNew mem
  have data := sound.linking.hasChainData known linked pindexTest (mem_branch.mp onBranch).1
  rcases unusable with isFailed | missing
  · exact isFailed
  · rw [data] at missing
    cases missing

theorem Sound.discard (sound : s.Sound) (onBranch : pindexTest ∈ s.branch pindexNew)
    (isFailed : (s.marks pindexTest).failed = true) :
    (s.discard pindexNew pindexTest).Sound := by
  simp only [BlockIndex.discard, isFailed, ↓reduceIte]
  refine sound.advance ⟨rfl, rfl, ?_, sound.tip_mem, ?_, ?_⟩
  · intro x
    dsimp only
    split
    · exact .setFailedChild _
    · exact .refl _
  · intro x known markedFailed
    by_cases above : x ∈ s.branchAbove pindexNew pindexTest
    · have lower := isAncestor_of_mem_branchAbove onBranch above
      obtain ⟨a, ancestor, invalid⟩ := sound.caused pindexTest (lower.mem known) isFailed
      refine .inr ⟨a, ancestor.trans lower, ?_⟩
      dsimp only
      split
      · exact invalid
      · exact invalid
    · simp only [above, ↓reduceIte] at markedFailed
      exact .inl markedFailed
  · exact fun c candidate => .inl (List.mem_of_mem_filter candidate)

theorem Sound.findMostWorkChain {found : Option Ptr} (sound : s.Sound)
    (result : s.findMostWorkChain = some (found, t)) : t.Sound := by
  refine (findMostWorkChainLoop_eq_some (fun before pindexNew pindexTest sound mem onBranch
    unusable => ?_) (Nat.lt_succ_self _) result sound).1
  exact sound.discard onBranch (sound.failed_of_unusable mem onBranch unusable)

theorem keptByConnecting_sound (env : ActivationEnv Ptr) (pindexMostWork : Ptr)
    (tree : BlockTree Ptr) :
    KeptByConnecting env pindexMostWork tree (fun s => s.tree = tree ∧ s.Sound) Sound where
  sameTree _ before := before.1
  connects b before after _ kept _ result := by
    obtain ⟨-, cases⟩ := connectTip_eq_some result
    have sameTree : after.tree = before.tree := by
      rcases cases with ⟨-, rfl⟩ | ⟨_, impossible, -⟩ | ⟨impossible, -⟩ | ⟨impossible, -⟩
      · rfl
      · cases impossible
      · cases impossible
      · cases impossible
    exact ⟨sameTree.trans kept.1, kept.2.connectTip result⟩
  stops b before after _ kept _ result := kept.2.connectTip result
  prunes before after kept result := by
    have sound := kept.2.pruneBlockIndexCandidates result
    rw [pruneBlockIndexCandidates_eq_some result] at sound ⊢
    exact ⟨kept.1, sound⟩
  blames _ _ sound := sound.invalidChainFound
  ends _ kept := kept.2

theorem Sound.activateBestChainStep {pindexMostWork : Ptr} (sound : s.Sound)
    (result : s.activateBestChainStep env pindexMostWork = some (flag, t)) :
    t.Sound := by
  refine (keptByConnecting_sound env pindexMostWork s.tree).activateBestChainStep ?_ result
  intro tip lower
  exact ⟨rfl, sound.setTip (lower.mem sound.tip_mem)⟩

theorem Sound.activateBestChain {reply : Reply} (sound : s.Sound)
    (result : s.activateBestChain env = some (reply, t)) : t.Sound := by
  obtain ⟨found, middle, searched, rest⟩ := activateBestChain_eq_some result
  have foundSound := sound.findMostWorkChain searched
  rcases rest with ⟨rfl, -⟩ | ⟨pindexMostWork, flag, -, stepped, -⟩
  · exact foundSound
  · exact foundSound.activateBestChainStep stepped

omit [LinearOrder Ptr] in
theorem Sound.withdrawn (sound : s.Sound) (invalid : (s.marks b).failedValid = true)
    (withdrawn : Withdrawn disconnects b flag s t) :
    t.Sound := by
  have marked : ∀ x, (s.marks x).Advance (t.marks x) := by
    intro x
    rcases withdrawn.marks x with same | ⟨-, same⟩
    · rw [same]
      exact .refl _
    · rw [same]
      exact .setFailedChild _
  refine sound.advance ⟨withdrawn.tree, withdrawn.unlinked, marked,
    withdrawn.tip.mem sound.tip_mem, ?_, fun c mem => .inl (withdrawn.candidates c mem)⟩
  intro x _ isFailed
  rcases withdrawn.marks x with same | ⟨below, -⟩
  · rw [same] at isFailed
    exact .inl isFailed
  · exact .inr ⟨b, below, (marked b).failedValid invalid⟩

theorem Sound.invalidateBlock (sound : s.Sound)
    (result : s.invalidateBlock disconnects b = some (flag, t)) : t.Sound := by
  simp only [BlockIndex.invalidateBlock] at result
  have invalid : ((s.failBlock b).marks b).failedValid = true := by
    rw [failBlock_marks, if_pos rfl]
  split at result
  · cases result
  · rename_i stuck walked
    obtain ⟨-, rfl⟩ := result
    exact sound.failBlock.withdrawn invalid (disconnectInvalid_eq_some (Nat.lt_succ_self _) walked)
  · rename_i lower walked
    obtain ⟨-, rfl⟩ := result
    have lowerSound := sound.failBlock.withdrawn invalid
      (disconnectInvalid_eq_some (Nat.lt_succ_self _) walked)
    exact lowerSound.restoreCandidates.invalidChainFound

/-- `ReconsiderBlock` leaves no failed block without a cause: every failed block that is
neither a descendant nor an ancestor of the block descends from an invalid block that is
not an ancestor of it. -/
def LeavesNoStray (s : BlockIndex Ptr) (pindex : Ptr) : Prop :=
  ∀ b ∈ s.tree.blocks, (s.marks b).failed = true → ¬ s.tree.IsAncestor pindex b →
    ¬ s.tree.IsAncestor b pindex →
    ∃ a, s.tree.IsAncestor a b ∧ (s.marks a).failedValid = true ∧ ¬ s.tree.IsAncestor a pindex

section Reconsider

variable {pindex : Ptr}

theorem reconsiders_iff : s.reconsiders pindex b = true ↔
    (s.marks b).isValid .transactions = false ∧ s.tree.IsAncestor pindex b := by
  rw [reconsiders, Bool.and_eq_true, Bool.not_eq_true', decide_eq_true_eq,
    BlockTree.getAncestor_eq_some]

theorem clearBelow_eq : s.clearBelow pindex b = s.marks b ∨
    s.clearBelow pindex b = (s.marks b).clearFailed := by
  unfold clearBelow
  split
  · exact .inr rfl
  · exact .inl rfl

theorem clearBelow_failed (known : b ∈ s.tree.blocks) (below : s.tree.IsAncestor pindex b) :
    (s.clearBelow pindex b).failed = false := by
  by_cases isFailed : (s.marks b).failed = true
  · have taken : s.reconsiders pindex b = true := by
      refine reconsiders_iff.mpr ⟨?_, below⟩
      simp [BlockMarks.isValid, isFailed]
    rw [clearBelow, if_pos ⟨known, taken⟩]
    rfl
  · rcases clearBelow_eq (s := s) (b := b) with same | cleared
    · rw [same]
      simpa using isFailed
    · rw [cleared]
      rfl

theorem clearBelow_of_not_below (notBelow : ¬ s.tree.IsAncestor pindex b) :
    s.clearBelow pindex b = s.marks b := by
  rw [clearBelow, if_neg]
  rintro ⟨-, taken⟩
  exact notBelow (reconsiders_iff.mp taken).2

theorem reconsiderBlock_marks : (s.reconsiderBlock pindex).marks b =
    if b ∈ s.tree.lineage pindex ∧ (s.clearBelow pindex b).failed then
      (s.clearBelow pindex b).clearFailed
    else s.clearBelow pindex b := rfl

theorem reconsiderBlock_failed (known : b ∈ s.tree.blocks)
    (near : s.tree.IsAncestor pindex b ∨ s.tree.IsAncestor b pindex) :
    ((s.reconsiderBlock pindex).marks b).failed = false := by
  rw [reconsiderBlock_marks]
  split
  · rfl
  · rename_i kept
    rcases near with below | above
    · exact clearBelow_failed known below
    · simpa [above] using kept

theorem reconsiderBlock_of_apart (notBelow : ¬ s.tree.IsAncestor pindex b)
    (notAbove : ¬ s.tree.IsAncestor b pindex) :
    (s.reconsiderBlock pindex).marks b = s.marks b := by
  rw [reconsiderBlock_marks, clearBelow_of_not_below notBelow, if_neg]
  exact fun both => notAbove (mem_lineage.mp both.1)

theorem reconsiderBlock_eq : (s.reconsiderBlock pindex).marks b = s.marks b ∨
    (s.reconsiderBlock pindex).marks b = (s.marks b).clearFailed := by
  rw [reconsiderBlock_marks]
  rcases clearBelow_eq (s := s) (b := b) with same | cleared
  · rw [same]
    split
    · exact .inr rfl
    · exact .inl rfl
  · rw [cleared]
    split
    · exact .inr rfl
    · exact .inr rfl

/-- **`ReconsiderBlock` leaves every failed block a cause exactly if it leaves no stray
one.** -/
theorem caused_reconsiderBlock_iff :
    (s.reconsiderBlock pindex).Caused ↔ s.LeavesNoStray pindex := by
  constructor
  · intro kept b known isFailed notBelow notAbove
    have stillFailed : ((s.reconsiderBlock pindex).marks b).failed = true := by
      rw [reconsiderBlock_of_apart notBelow notAbove]
      exact isFailed
    obtain ⟨a, link, invalid⟩ := kept b known stillFailed
    have ancestor : s.tree.IsAncestor a b := link
    have apart : ¬ s.tree.IsAncestor pindex a := fun below => notBelow (below.trans ancestor)
    have outside : ¬ s.tree.IsAncestor a pindex := by
      intro above
      have cleared := reconsiderBlock_failed (ancestor.mem known) (.inr above)
      simp [BlockMarks.failed, invalid] at cleared
    rw [reconsiderBlock_of_apart apart outside] at invalid
    exact ⟨a, ancestor, invalid, outside⟩
  · intro noStray b mem isFailed
    have known : b ∈ s.tree.blocks := mem
    have notNear : ¬ (s.tree.IsAncestor pindex b ∨ s.tree.IsAncestor b pindex) := by
      intro near
      rw [reconsiderBlock_failed known near] at isFailed
      cases isFailed
    obtain ⟨notBelow, notAbove⟩ := not_or.mp notNear
    rw [reconsiderBlock_of_apart notBelow notAbove] at isFailed
    obtain ⟨a, ancestor, invalid, outside⟩ := noStray b known isFailed notBelow notAbove
    have apart : ¬ s.tree.IsAncestor pindex a := fun below => notBelow (below.trans ancestor)
    refine ⟨a, ancestor, ?_⟩
    rw [reconsiderBlock_of_apart apart outside]
    exact invalid

theorem Sound.reconsiderBlock (sound : s.Sound) (noStray : s.LeavesNoStray pindex) :
    (s.reconsiderBlock pindex).Sound := by
  have same : SameData s (s.reconsiderBlock pindex) := by
    refine ⟨rfl, rfl, fun x => ?_, fun x => ?_, fun x => ?_⟩ <;>
      rcases reconsiderBlock_eq (s := s) (b := x) with marks | marks <;> rw [marks] <;> rfl
  refine ⟨⟨sound.tip_mem, caused_reconsiderBlock_iff.mpr noStray, ?_, ?_⟩,
    same.linking sound.linking⟩
  · intro x known
    have before := sound.treeValid x known
    rcases reconsiderBlock_eq (s := s) (b := x) with marks | marks
    · rw [marks]
      exact before
    · rw [marks]
      exact before
  · intro c mem
    rw [same.nChainTx]
    rcases List.mem_union_iff.mp mem with old | new
    · exact sound.candidates c old
    · obtain ⟨taken, chosen⟩ := mem_filter.mp new
      simp only [Bool.and_eq_true, decide_eq_true_eq] at chosen
      refine ⟨(mem_filter.mp taken).1, ?_⟩
      have linked := chosen.1.2
      rcases clearBelow_eq (s := s) (b := c) with marks | marks
      · rwa [marks] at linked
      · rwa [marks] at linked

end Reconsider

section Data

variable {prev : Ptr} {nProof nTx : ℕ}

theorem Sound.added (sound : s.Sound) (added : Added b prev nProof s t) : t.Sound := by
  refine ⟨⟨?_, ?_, ?_, ?_⟩, added.linking sound.linking⟩
  · rw [added.tip]
    exact added.mem_iff.mpr (.inr sound.tip_mem)
  · intro x mem isFailed
    rcases added.mem_iff.mp mem with rfl | known
    · rw [added.new] at isFailed
      cases isFailed
    · rw [added.marks x known] at isFailed
      obtain ⟨a, ancestor, invalid⟩ := sound.caused x known isFailed
      refine ⟨a, (added.isAncestor known).mpr ancestor, ?_⟩
      rwa [added.marks a (ancestor.mem known)]
  · intro x mem
    rcases added.mem_iff.mp mem with rfl | known
    · rw [added.new]
    · rw [added.marks x known]
      exact sound.treeValid x known
  · intro c mem
    rw [added.candidates] at mem
    obtain ⟨known, linked⟩ := sound.candidates c mem
    refine ⟨added.mem_iff.mpr (.inr known), ?_⟩
    rwa [added.marks c known]

theorem link_failed (x : Ptr) : ((s.link b).marks x).failed = (s.marks x).failed ∧
    ((s.link b).marks x).failedValid = (s.marks x).failedValid ∧
    ((s.link b).marks x).validity = (s.marks x).validity := by
  rw [link_marks]
  by_cases same : x = b
  · subst same
    rw [Function.update_self]
    exact ⟨rfl, rfl, rfl⟩
  · rw [Function.update_of_ne same]
    exact ⟨rfl, rfl, rfl⟩

theorem mem_candidates_link (mem : c ∈ (s.link b).setBlockIndexCandidates) :
    c = b ∨ c ∈ s.setBlockIndexCandidates := by
  simp only [link, addCandidate] at mem
  split at mem
  · exact .inr mem
  · exact List.mem_insert_iff.mp mem

theorem Flagged.link {queue : List Ptr} (flagged : s.Flagged) (linking : s.Linking queue)
    (ready : s.Ready b) : (s.link b).Flagged := by
  refine ⟨flagged.tip_mem, ?_, ?_, ?_⟩
  · intro x known isFailed
    rw [(link_failed x).1] at isFailed
    obtain ⟨a, ancestor, invalid⟩ := flagged.caused x known isFailed
    exact ⟨a, ancestor, (link_failed a).2.1.trans invalid⟩
  · intro x known
    rw [(link_failed x).2.2]
    exact flagged.treeValid x known
  · intro c mem
    have set := (linking.nextChainTx_eq ready).2
    rw [link_nChainTx]
    rcases mem_candidates_link mem with rfl | old
    · rw [if_pos rfl]
      exact ⟨ready.known, set⟩
    · obtain ⟨known, linked⟩ := flagged.candidates c old
      split
      · exact ⟨known, set⟩
      · exact ⟨known, linked⟩

theorem Flagged.receive (flagged : s.Flagged) (unset : (s.marks b).nChainTx = 0) :
    (s.receive b nTx).Flagged := by
  have flags : ∀ x, ((s.receive b nTx).marks x).failed = (s.marks x).failed ∧
      ((s.receive b nTx).marks x).failedValid = (s.marks x).failedValid := by
    intro x
    by_cases same : x = b
    · subst same
      rw [receive_marks_self, BlockMarks.raiseValidity_eq]
      exact ⟨rfl, rfl⟩
    · rw [receive_marks_of_ne same]
      exact ⟨rfl, rfl⟩
  refine ⟨flagged.tip_mem, ?_, ?_, ?_⟩
  · intro x known isFailed
    rw [(flags x).1] at isFailed
    obtain ⟨a, ancestor, invalid⟩ := flagged.caused x known isFailed
    exact ⟨a, ancestor, (flags a).2.trans invalid⟩
  · intro x known
    have before := flagged.treeValid x known
    by_cases same : x = b
    · subst same
      rw [receive_marks_self]
      exact Nat.le_trans before (BlockMarks.le_level_raiseValidity
        { s.marks x with nTx := nTx, nChainTx := 0, haveData := true } .transactions)
    · rw [receive_marks_of_ne same]
      exact before
  · intro c mem
    rw [receive_nChainTx unset]
    exact flagged.candidates c mem

theorem Sound.receivedBlockTransactions (sound : s.Sound) (accepted : s.accepts b nTx = true)
    (fits : s.CountFits b nTx) : (s.receivedBlockTransactions b nTx).Sound := by
  obtain ⟨known, missing, -⟩ := accepts_iff.mp accepted
  have unset := sound.linking.nChainTx_eq_zero known missing
  obtain ⟨linking, flagged⟩ := sound.linking.receivedBlockTransactions sound.treeValid accepted
    fits (fun before a rest linking ready flagged => Flagged.link flagged linking ready)
    (fun p _ flagged => ⟨flagged.tip_mem, flagged.caused, flagged.treeValid, flagged.candidates⟩)
    (sound.toFlagged.receive unset)
  exact ⟨flagged, linking⟩

end Data

/-- The consistency of the block tree: without an invalid ancestor a block has no failure
flag, and `nChainTx` is set exactly for the blocks whose chain has all data. -/
structure Consistent (s : BlockIndex Ptr) : Prop where
  failed : ∀ b ∈ s.tree.blocks,
    (∀ a, s.tree.IsAncestor a b → (s.marks a).failedValid = false) → (s.marks b).failed = false
  nChainTx : ∀ b ∈ s.tree.blocks, (s.marks b).nChainTx ≠ 0 ↔
    ∀ a, s.tree.IsAncestor a b → (s.marks a).haveData = true

omit [LinearOrder Ptr] in
theorem Sound.consistent (sound : s.Sound) : s.Consistent := by
  refine ⟨fun b known clean => ?_, fun b known => sound.linking.nChainTx_ne_zero_iff known⟩
  by_contra isFailed
  obtain ⟨a, ancestor, invalid⟩ := sound.caused b known (by simpa using isFailed)
  rw [clean a ancestor] at invalid
  cases invalid

theorem sound_genesis (b : Ptr) (nProof : ℕ) : (genesis b nProof).Sound := by
  have marks := genesis_marks b nProof
  have count : (genesis b nProof).tree.chainTx (fun a => ((genesis b nProof).marks a).nTx) b =
      1 := by
    rw [BlockTree.chainTx_of_root _ rfl, marks]
  refine ⟨⟨List.mem_cons_self, ?_, ?_, ?_⟩, ?_, ?_, ?_, ?_, ?_, List.nodup_nil⟩
  · intro x mem isFailed
    cases mem_singleton.mp mem
    rw [marks] at isFailed
    cases isFailed
  · intro x mem
    cases mem_singleton.mp mem
    rw [marks]
    decide
  · intro c mem
    cases mem_singleton.mp mem
    rw [marks]
    exact ⟨List.mem_cons_self, Nat.one_ne_zero⟩
  · intro x mem _
    cases mem_singleton.mp mem
    rw [marks]
    exact ⟨rfl, rfl⟩
  · intro x mem _ unset
    cases mem_singleton.mp mem
    rw [marks] at unset
    cases unset
  · intro p x pair
    cases pair
  · intro x mem _
    cases mem_singleton.mp mem
    rw [count, marks]
    rfl
  · intro x mem _
    cases mem_singleton.mp mem
    rw [count]
    decide

def RequestFits (s : BlockIndex Ptr) : Request Ptr → Prop
  | .receivedBlockTransactions b nTx => s.CountFits b nTx
  | _ => True

def CallFits (s : BlockIndex Ptr) : Call Ptr → Prop
  | .request request => s.RequestFits request
  | .reconsiderBlock pindex => s.LeavesNoStray pindex
  | _ => True

theorem Sound.serve {request : Request Ptr} (sound : s.Sound) (fits : s.RequestFits request)
    (result : serve request s = some t) : t.Sound := by
  cases request with
  | addToBlockIndex b prev nProof =>
    rcases addToBlockIndex_eq_some result with rfl | added
    · exact sound
    · exact sound.added added
  | receivedBlockTransactions b nTx =>
    obtain ⟨accepted, same⟩ := Option.ite_none_right_eq_some.mp result
    cases same
    exact sound.receivedBlockTransactions accepted fits
  | activateBestChain env =>
    obtain ⟨⟨reply, after⟩, activated, rfl⟩ := Option.map_eq_some_iff.mp result
    exact sound.activateBestChain activated
  | invalidateBlock disconnects b =>
    obtain ⟨-, served⟩ := Option.ite_none_right_eq_some.mp result
    obtain ⟨⟨flag, after⟩, invalidated, rfl⟩ := Option.map_eq_some_iff.mp served
    exact sound.invalidateBlock invalidated

/-- **Every call keeps the invariant.** -/
theorem Sound.perform {call : Call Ptr} (sound : s.Sound) (fits : s.CallFits call)
    (result : perform call s = some t) : t.Sound := by
  cases call with
  | request request => exact sound.serve fits result
  | connectTip b outcome => exact sound.connectTip result
  | disconnectTip disconnects =>
    obtain ⟨⟨flag, after⟩, moved, rfl⟩ := Option.map_eq_some_iff.mp result
    exact sound.disconnectTip moved
  | findMostWorkChain =>
    obtain ⟨⟨found, after⟩, searched, rfl⟩ := Option.map_eq_some_iff.mp result
    exact sound.findMostWorkChain searched
  | pruneBlockIndexCandidates => exact sound.pruneBlockIndexCandidates result
  | invalidBlockFound b corruptionPossible =>
    obtain ⟨-, same⟩ := Option.ite_none_right_eq_some.mp result
    cases same
    exact sound.invalidBlockFound
  | reconsiderBlock b =>
    obtain ⟨-, same⟩ := Option.ite_none_right_eq_some.mp result
    cases same
    exact sound.reconsiderBlock fits

/-- **The block tree stays consistent** in every history of calls none of which is a
`ReconsiderBlock` that leaves a stray failed block, and in which no chain's 32-bit count of
transactions comes to zero. -/
theorem consistent_of_run (b : Ptr) (nProof : ℕ) (calls : List (Call Ptr))
    (final : BlockIndex Ptr) (runs : run perform calls (genesis b nProof) = some final)
    (fits : RunMeets perform CallFits calls (genesis b nProof)) : final.Consistent :=
  (fits.invariant Sound (fun _ _ _ fits sound result => sound.perform fits result) runs
    (sound_genesis b nProof)).consistent

section Decidable

instance (tree : BlockTree Ptr) (a b : Ptr) : Decidable (tree.IsAncestor a b) :=
  decidable_of_iff _ mem_lineage

instance (s : BlockIndex Ptr) (b : Ptr) (nTx : ℕ) : Decidable (s.CountFits b nTx) :=
  decidable_of_iff (∀ c ∈ s.tree.blocks, s.tree.IsAncestor b c →
    (∀ a ∈ s.tree.lineage c, a ≠ b → (s.marks a).haveData = true) →
    s.tree.chainTx (Function.update (fun a => (s.marks a).nTx) b nTx) c % 2 ^ 32 ≠ 0)
    (by simp only [mem_lineage, CountFits])

instance (s : BlockIndex Ptr) (pindex : Ptr) : Decidable (s.LeavesNoStray pindex) :=
  decidable_of_iff (∀ b ∈ s.tree.blocks, (s.marks b).failed = true →
    ¬ s.tree.IsAncestor pindex b → ¬ s.tree.IsAncestor b pindex →
    ∃ a ∈ s.tree.lineage b, (s.marks a).failedValid = true ∧ ¬ s.tree.IsAncestor a pindex)
    (by simp only [mem_lineage, LeavesNoStray])

instance (s : BlockIndex Ptr) : (request : Request Ptr) → Decidable (s.RequestFits request)
  | .receivedBlockTransactions b nTx => inferInstanceAs (Decidable (s.CountFits b nTx))
  | .addToBlockIndex .. => isTrue trivial
  | .activateBestChain _ => isTrue trivial
  | .invalidateBlock .. => isTrue trivial

instance (s : BlockIndex Ptr) : (call : Call Ptr) → Decidable (s.CallFits call)
  | .request request => inferInstanceAs (Decidable (s.RequestFits request))
  | .reconsiderBlock pindex => inferInstanceAs (Decidable (s.LeavesNoStray pindex))
  | .connectTip .. => isTrue trivial
  | .disconnectTip _ => isTrue trivial
  | .findMostWorkChain => isTrue trivial
  | .pruneBlockIndexCandidates => isTrue trivial
  | .invalidBlockFound .. => isTrue trivial

end Decidable

def sampleEnv : ActivationEnv ℕ where
  connects _ := .connected
  disconnects _ := true

def arrival (b prev : ℕ) : List (Call ℕ) :=
  [.request (.addToBlockIndex b prev 10), .request (.receivedBlockTransactions b 1),
    .request (.activateBestChain sampleEnv)]

/-- Two blocks on top of a block that is invalidated: the first was active and is marked,
the second is marked when it is tried. -/
def invalidatedFork : List (Call ℕ) :=
  arrival 1 0 ++ arrival 2 1 ++ arrival 3 1 ++
    [.request (.invalidateBlock (fun _ => true) 1), .request (.activateBestChain sampleEnv)]

theorem consistent_of_run_invalidatedFork :
    ∃ final, run perform (invalidatedFork ++ [.reconsiderBlock 1]) (genesis 0 1) = some final ∧
      final.Consistent := by
  have ok : (run perform (invalidatedFork ++ [.reconsiderBlock 1]) (genesis 0 1)).isSome =
      true := by
    decide
  obtain ⟨final, runs⟩ := Option.isSome_iff_exists.mp ok
  exact ⟨final, runs, consistent_of_run 0 1 _ final runs (by decide)⟩

/-- The second block is reconsidered: the block below it is no longer invalid, and the first
block keeps its mark when the activation has ended. -/
theorem not_consistent_reconsidered :
    ∃ middle final, run perform (invalidatedFork ++
        [.reconsiderBlock 3, .request (.activateBestChain sampleEnv)]) (genesis 0 1) = some middle ∧
      middle.activateBestChain sampleEnv = some (.returned true, final) ∧ ¬ final.Consistent := by
  have checked : ((run perform (invalidatedFork ++
      [.reconsiderBlock 3, .request (.activateBestChain sampleEnv)]) (genesis 0 1)).bind
      (·.activateBestChain sampleEnv)).any (fun result =>
        result.1 = .returned true && decide (2 ∈ result.2.tree.blocks) &&
          (result.2.marks 2).failed &&
          (result.2.tree.lineage 2).all fun a => !(result.2.marks a).failedValid) = true := by
    decide
  obtain ⟨⟨reply, final⟩, activated, facts⟩ := Option.any_eq_true _ _ |>.mp checked
  obtain ⟨middle, runs, returned⟩ := Option.bind_eq_some_iff.mp activated
  simp only [Bool.and_eq_true, decide_eq_true_eq, List.all_eq_true, mem_lineage,
    Bool.not_eq_true'] at facts
  obtain ⟨⟨⟨rfl, known⟩, isFailed⟩, clean⟩ := facts
  refine ⟨middle, final, runs, returned, fun consistent => ?_⟩
  rw [consistent.failed 2 known clean] at isFailed
  cases isFailed

end DogeCash.BlockIndex
