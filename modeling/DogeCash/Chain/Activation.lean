import DogeCash.Chain.BlockIndex

/-! # What the steps of an activation do

For every function that changes the active chain, what its result says about the state
before it. The loops keep every property that their rounds keep.
-/

namespace DogeCash.BlockIndex

open BlockTree (isAncestor_refl mem_lineage)

variable {Ptr : Type} {s t : BlockIndex Ptr} {a b c p : Ptr}

section Scan

variable {items : List Ptr} {pindexTest : Ptr}

theorem scan_eq_usable (usable : s.scan items = some none) :
    ∀ b ∈ items, (s.marks b).failed = false ∧ (s.marks b).haveData = true := by
  induction items with
  | nil => simp
  | cons first rest ih =>
    rw [scan] at usable
    split_ifs at usable with unlinked unusable
    · cases usable
    · intro b mem
      rcases List.mem_cons.mp mem with rfl | later
      · simpa using unusable
      · exact ih usable b later

theorem scan_eq_unusable (found : s.scan items = some (some pindexTest)) :
    pindexTest ∈ items ∧
      ((s.marks pindexTest).failed = true ∨ (s.marks pindexTest).haveData = false) := by
  induction items with
  | nil => cases found
  | cons first rest ih =>
    rw [scan] at found
    split_ifs at found with unlinked unusable
    · cases found
      refine ⟨List.mem_cons_self, ?_⟩
      simpa using unusable
    · obtain ⟨mem, reason⟩ := ih found
      exact ⟨List.mem_cons_of_mem _ mem, reason⟩

end Scan

theorem disconnectTip_eq_some {disconnects flag : Bool}
    (result : s.disconnectTip disconnects = some (flag, t)) :
    (flag = false ∧ t = s ∧ ¬ ((s.marks s.tip).haveUndo = true ∧ disconnects = true)) ∨
      (flag = true ∧ ∃ p, s.tree.pprev s.tip = some p ∧ t = { s with tip := p }) := by
  unfold disconnectTip at result
  split at result
  · cases above : s.tree.pprev s.tip with
    | none => simp only [above, reduceCtorEq] at result
    | some p =>
      simp only [above, Option.some.injEq, Prod.mk.injEq] at result
      exact .inr ⟨result.1.symm, p, rfl, result.2.symm⟩
  · rename_i stuck
    simp only [Option.some.injEq, Prod.mk.injEq] at result
    refine .inl ⟨result.1.symm, result.2.symm, ?_⟩
    simpa using stuck

theorem isAncestor_of_mem_vpindexToConnect {pindexMostWork : Ptr} {next nTargetHeight : ℕ}
    (mem : b ∈ s.vpindexToConnect pindexMostWork next nTargetHeight) :
    s.tree.IsAncestor b pindexMostWork := by
  unfold vpindexToConnect at mem
  split at mem
  · cases mem
  · rename_i pindexIter reached
    have below := mem_lineage.mp ((List.takeWhile_sublist _).subset mem)
    exact below.trans (BlockTree.isAncestor_of_getAncestor reached)

variable [LinearOrder Ptr]

theorem contains_iff : s.contains b = true ↔ s.tree.IsAncestor b s.tip := by
  rw [contains, decide_eq_true_eq, BlockTree.getAncestor_eq_some]

theorem mem_branch : a ∈ s.branch b ↔ s.tree.IsAncestor a b ∧ ¬ s.tree.IsAncestor a s.tip := by
  have passes : (s.tree.lineage b).Pairwise fun x y =>
      (!s.contains y) = true → (!s.contains x) = true := by
    refine (lineage_pairwise s.tree.pprev _ b).imp fun {x y} above outside => ?_
    simp only [Bool.not_eq_true', ← Bool.not_eq_true, contains_iff] at outside ⊢
    exact fun inside => outside (BlockTree.IsAncestor.trans above inside)
  rw [branch, mem_takeWhile_iff passes, mem_lineage]
  simp only [Bool.not_eq_true', ← Bool.not_eq_true, contains_iff]

theorem branch_pairwise (b : Ptr) : (s.branch b).Pairwise fun x y => s.tree.IsAncestor y x :=
  (lineage_pairwise s.tree.pprev _ b).sublist (List.takeWhile_sublist _)

theorem workLess_iff : s.workLess a b = true ↔ s.rank a < s.rank b := by
  simp only [workLess, rank, Prod.Lex.toLex_lt_toLex, OrderDual.toDual_lt_toDual,
    OrderDual.toDual_inj, gt_iff_lt]
  split_ifs <;> grind

section FindMostWorkChain

variable {pindexNew pindexTest : Ptr}

theorem isAncestor_of_mem_branchAbove (onBranch : pindexTest ∈ s.branch pindexNew)
    (mem : a ∈ s.branchAbove pindexNew pindexTest) : s.tree.IsAncestor pindexTest a := by
  have related := related_of_mem_takeWhile_ne (branch_pairwise pindexNew) onBranch mem
  exact related

theorem discard_candidates : (s.discard pindexNew pindexTest).setBlockIndexCandidates =
    s.setBlockIndexCandidates.filter fun c =>
      c ∉ s.branchAbove pindexNew pindexTest ∧ c ≠ pindexTest := by
  simp only [discard]
  split_ifs <;> rfl

theorem length_discard_lt (mem : pindexNew ∈ s.setBlockIndexCandidates)
    (onBranch : pindexTest ∈ s.branch pindexNew) :
    (s.discard pindexNew pindexTest).setBlockIndexCandidates.length <
      s.setBlockIndexCandidates.length := by
  rw [discard_candidates, List.length_filter_lt_length_iff_exists]
  refine ⟨pindexNew, mem, ?_⟩
  have heads : ∃ rest, s.branch pindexNew = pindexNew :: rest := by
    have starts : ∃ rest, s.tree.lineage pindexNew = pindexNew :: rest := by
      rw [BlockTree.lineage]
      cases s.tree.nHeight pindexNew with
      | zero => exact ⟨[], rfl⟩
      | succ n => exact ⟨_, rfl⟩
    obtain ⟨rest, lineage⟩ := starts
    rw [branch, lineage] at onBranch ⊢
    cases inside : s.contains pindexNew with
    | false => exact ⟨_, List.takeWhile_cons_of_pos (by simpa using inside)⟩
    | true => simp [inside] at onBranch
  obtain ⟨rest, shape⟩ := heads
  by_cases same : pindexNew = pindexTest
  · simp [same]
  · have first : pindexNew ∈ s.branchAbove pindexNew pindexTest := by
      rw [branchAbove, shape, List.takeWhile_cons_of_pos (by simpa using same)]
      exact List.mem_cons_self
    simp [first]

/-- What every discarded chain keeps, `FindMostWorkChain` keeps; the block it returns is the
best candidate and its branch is usable, and without one there is no candidate. -/
theorem findMostWorkChainLoop_eq_some {invariant : BlockIndex Ptr → Prop} {fuel : ℕ}
    {found : Option Ptr}
    (discards : ∀ before pindexNew pindexTest, invariant before →
      pindexNew ∈ before.setBlockIndexCandidates → pindexTest ∈ before.branch pindexNew →
      ((before.marks pindexTest).failed = true ∨ (before.marks pindexTest).haveData = false) →
      invariant (before.discard pindexNew pindexTest))
    (enough : s.setBlockIndexCandidates.length < fuel)
    (result : findMostWorkChainLoop fuel s = some (found, t)) (start : invariant s) :
    invariant t ∧
      (∀ c, found = some c → t.setBlockIndexCandidates.argmax t.rank = some c ∧
        t.scan (t.branch c) = some none) ∧
      (found = none → t.setBlockIndexCandidates = []) := by
  induction fuel generalizing s with
  | zero => omega
  | succ fuel ih =>
    rw [findMostWorkChainLoop] at result
    cases best : s.setBlockIndexCandidates.argmax s.rank with
    | none =>
      simp only [best, Option.some.injEq, Prod.mk.injEq] at result
      obtain ⟨rfl, rfl⟩ := result
      exact ⟨start, fun c impossible => (by cases impossible),
        fun _ => List.argmax_eq_none.mp best⟩
    | some pindexNew =>
      have mem : pindexNew ∈ s.setBlockIndexCandidates := List.argmax_mem best
      cases scanned : s.scan (s.branch pindexNew) with
      | none => simp only [best, scanned, reduceCtorEq] at result
      | some outcome =>
        cases outcome with
        | none =>
          simp only [best, scanned, Option.some.injEq, Prod.mk.injEq] at result
          obtain ⟨rfl, rfl⟩ := result
          refine ⟨start, fun c same => ?_, fun impossible => (by cases impossible)⟩
          cases same
          exact ⟨best, scanned⟩
        | some pindexTest =>
          simp only [best, scanned] at result
          obtain ⟨onBranch, reason⟩ := scan_eq_unusable scanned
          refine ih ?_ result (discards s pindexNew pindexTest start mem onBranch reason)
          have fewer := length_discard_lt mem onBranch
          omega

end FindMostWorkChain

section Moves

variable {env : ActivationEnv Ptr} {pindexFork : Option Ptr} {flag : Bool}
  {outcome : ConnectOutcome}

theorem disconnectTo_eq_some {fuel : ℕ}
    (result : disconnectTo env pindexFork fuel s = some (flag, t)) :
    t = { s with tip := t.tip } ∧ s.tree.IsAncestor t.tip s.tip := by
  induction fuel generalizing s with
  | zero =>
    obtain ⟨-, rfl⟩ := result
    exact ⟨rfl, isAncestor_refl _⟩
  | succ fuel ih =>
    rw [disconnectTo] at result
    split at result
    · obtain ⟨-, rfl⟩ := result
      exact ⟨rfl, isAncestor_refl _⟩
    · cases moved : s.disconnectTip (env.disconnects s.tip) with
      | none => simp only [moved, reduceCtorEq] at result
      | some pair =>
        obtain ⟨went, lower⟩ := pair
        rcases disconnectTip_eq_some moved with ⟨rfl, rfl, -⟩ | ⟨rfl, p, above, rfl⟩
        · simp only [moved, Option.some.injEq, Prod.mk.injEq] at result
          obtain ⟨-, rfl⟩ := result
          exact ⟨rfl, isAncestor_refl _⟩
        · simp only [moved] at result
          obtain ⟨shape, lowered⟩ := ih result
          exact ⟨shape, lowered.trans (BlockTree.isAncestor_of_pprev above)⟩

theorem connectTip_eq_some (result : s.connectTip b outcome = some t) :
    s.tree.pprev b = some s.tip ∧
      ((outcome = .connected ∧ t = { s.mark b BlockMarks.recordScripts with tip := b }) ∨
        (∃ corruptionPossible, outcome = .invalid corruptionPossible ∧
          t = s.invalidBlockFound b corruptionPossible) ∨
        (outcome = .failed true ∧ t = s.mark b BlockMarks.recordScripts) ∨
        (outcome = .failed false ∧ t = s)) := by
  unfold connectTip at result
  split at result
  · rename_i above
    refine ⟨above, ?_⟩
    cases outcome with
    | connected => exact .inl ⟨rfl, (Option.some.inj result).symm⟩
    | invalid corruptionPossible =>
      exact .inr (.inl ⟨corruptionPossible, rfl, (Option.some.inj result).symm⟩)
    | failed recorded =>
      cases recorded with
      | true => exact .inr (.inr (.inl ⟨rfl, (Option.some.inj result).symm⟩))
      | false => exact .inr (.inr (.inr ⟨rfl, (Option.some.inj result).symm⟩))
  · cases result

theorem pruneBlockIndexCandidates_eq_some (result : s.pruneBlockIndexCandidates = some t) :
    t = { s with
      setBlockIndexCandidates := s.setBlockIndexCandidates.filter fun c =>
        !s.workLess c s.tip } := by
  simp only [pruneBlockIndexCandidates] at result
  split at result
  · cases result
  · exact (Option.some.inj result).symm

/-- What is kept while blocks are connected towards `pindexMostWork`: the invariant by
every connected block, the final property by the block that ends the step. -/
structure KeptByConnecting (env : ActivationEnv Ptr) (pindexMostWork : Ptr)
    (tree : BlockTree Ptr) (invariant final : BlockIndex Ptr → Prop) : Prop where
  sameTree : ∀ before, invariant before → before.tree = tree
  connects : ∀ b before after, tree.IsAncestor b pindexMostWork → invariant before →
    env.connects b = .connected → before.connectTip b .connected = some after → invariant after
  stops : ∀ b before after, tree.IsAncestor b pindexMostWork → invariant before →
    env.connects b ≠ .connected → before.connectTip b (env.connects b) = some after → final after
  prunes : ∀ before after, invariant before →
    before.pruneBlockIndexCandidates = some after → invariant after
  blames : ∀ before b, final before → final (before.invalidChainFound b)
  ends : ∀ before, invariant before → final before

namespace KeptByConnecting

variable {pindexMostWork pindexOldTip lowest : Ptr} {tree : BlockTree Ptr}
  {invariant final : BlockIndex Ptr → Prop}

theorem connectBatch {batch : List Ptr} {progress : Progress}
    (kept : KeptByConnecting env pindexMostWork tree invariant final)
    (members : ∀ b ∈ batch, tree.IsAncestor b pindexMostWork)
    (result : connectBatch env pindexOldTip lowest batch s = some (progress, t))
    (start : invariant s) : final t ∧ (progress = .more → invariant t) := by
  induction batch generalizing s with
  | nil =>
    simp only [BlockIndex.connectBatch, Option.some.injEq, Prod.mk.injEq] at result
    obtain ⟨-, rfl⟩ := result
    exact ⟨kept.ends s start, fun _ => start⟩
  | cons b rest ih =>
    have onChain := members b List.mem_cons_self
    rw [BlockIndex.connectBatch] at result
    cases tried : s.connectTip b (env.connects b) with
    | none => simp only [tried, reduceCtorEq] at result
    | some after =>
      cases outcome : env.connects b with
      | invalid corruptionPossible =>
        have stopped := kept.stops b s after onChain start (by simp [outcome]) tried
        rw [outcome] at tried
        simp only [tried, outcome, Option.some.injEq, Prod.mk.injEq] at result
        obtain ⟨rfl, rfl⟩ := result
        refine ⟨?_, fun impossible => (by cases impossible)⟩
        split
        · exact stopped
        · exact kept.blames after lowest stopped
      | failed recorded =>
        have stopped := kept.stops b s after onChain start (by simp [outcome]) tried
        rw [outcome] at tried
        simp only [tried, outcome, Option.some.injEq, Prod.mk.injEq] at result
        obtain ⟨rfl, rfl⟩ := result
        exact ⟨stopped, fun impossible => (by cases impossible)⟩
      | connected =>
        rw [outcome] at tried
        have connected := kept.connects b s after onChain start outcome tried
        cases pruned : after.pruneBlockIndexCandidates with
        | none => simp only [tried, outcome, pruned, reduceCtorEq] at result
        | some next =>
          have here := kept.prunes after next connected pruned
          simp only [tried, outcome, pruned] at result
          split at result
          · simp only [Option.some.injEq, Prod.mk.injEq] at result
            obtain ⟨rfl, rfl⟩ := result
            exact ⟨kept.ends next here, fun impossible => (by cases impossible)⟩
          · exact ih (fun c later => members c (List.mem_cons_of_mem _ later)) result here

theorem connectTo {fuel next : ℕ}
    (kept : KeptByConnecting env pindexMostWork tree invariant final)
    (result : connectTo env pindexOldTip pindexMostWork fuel next s = some (flag, t))
    (start : invariant s) : final t := by
  induction fuel generalizing s next with
  | zero =>
    simp only [BlockIndex.connectTo, Option.some.injEq, Prod.mk.injEq] at result
    obtain ⟨-, rfl⟩ := result
    exact kept.ends s start
  | succ fuel ih =>
    simp only [BlockIndex.connectTo] at result
    split at result
    · simp only [Option.some.injEq, Prod.mk.injEq] at result
      obtain ⟨-, rfl⟩ := result
      exact kept.ends s start
    · split at result
      · exact ih result start
      · rename_i lowest _
        have members : ∀ b ∈ (s.vpindexToConnect pindexMostWork next
            (min (next + 31) (s.tree.nHeight pindexMostWork))).reverse,
            tree.IsAncestor b pindexMostWork := by
          intro b mem
          rw [← kept.sameTree s start]
          exact isAncestor_of_mem_vpindexToConnect (List.mem_reverse.mp mem)
        split at result
        · cases result
        · rename_i failing ended
          obtain ⟨-, rfl⟩ := result
          exact (kept.connectBatch members ended start).1
        · rename_i last ended
          obtain ⟨-, rfl⟩ := result
          exact (kept.connectBatch members ended start).1
        · rename_i higher ended
          exact ih result ((kept.connectBatch members ended start).2 rfl)

theorem activateBestChainStep
    (kept : KeptByConnecting env pindexMostWork s.tree invariant final)
    (start : ∀ tip, s.tree.IsAncestor tip s.tip → invariant { s with tip := tip })
    (result : s.activateBestChainStep env pindexMostWork = some (flag, t)) : final t := by
  simp only [BlockIndex.activateBestChainStep] at result
  split at result
  · cases result
  · rename_i stuck moved
    obtain ⟨-, rfl⟩ := result
    obtain ⟨shape, lower⟩ := disconnectTo_eq_some moved
    rw [shape]
    exact kept.ends _ (start _ lower)
  · rename_i forked moved
    obtain ⟨shape, lower⟩ := disconnectTo_eq_some moved
    rw [shape] at result
    exact kept.connectTo result (start _ lower)

end KeptByConnecting

/-- A round of `ActivateBestChain` either has nothing to do or makes a step towards the
best candidate. -/
theorem activateBestChain_eq_some {reply : Reply}
    (result : s.activateBestChain env = some (reply, t)) :
    ∃ found middle, s.findMostWorkChain = some (found, middle) ∧
      ((t = middle ∧ (found = none ∨ found = some middle.tip)) ∨
        ∃ pindexMostWork flag, found = some pindexMostWork ∧
          middle.activateBestChainStep env pindexMostWork = some (flag, t) ∧
          (reply = .returned true → pindexMostWork = t.tip)) := by
  unfold activateBestChain at result
  split at result
  · cases result
  · rename_i middle searched
    simp only [Option.some.injEq, Prod.mk.injEq] at result
    exact ⟨none, middle, searched, .inl ⟨result.2.symm, .inl rfl⟩⟩
  · rename_i pindexMostWork middle searched
    refine ⟨some pindexMostWork, middle, searched, ?_⟩
    split at result
    · rename_i atTip
      simp only [Option.some.injEq, Prod.mk.injEq] at result
      exact .inl ⟨result.2.symm, .inr (congrArg some atTip)⟩
    · split at result
      · cases result
      · rename_i failing stepped
        obtain ⟨rfl, rfl⟩ := result
        exact .inr ⟨pindexMostWork, false, rfl, stepped, fun impossible => (by cases impossible)⟩
      · rename_i moved stepped
        split at result
        · rename_i atTip
          obtain ⟨-, rfl⟩ := result
          exact .inr ⟨pindexMostWork, true, rfl, stepped, fun _ => atTip⟩
        · obtain ⟨rfl, rfl⟩ := result
          exact .inr ⟨pindexMostWork, true, rfl, stepped, fun impossible => (by cases impossible)⟩

end Moves

section Invalidate

variable {disconnects : Ptr → Bool} {flag : Bool}

/-- What disconnecting the blocks above an invalid block does: the tip goes down, and only
descendants of the block are marked. -/
structure Withdrawn (disconnects : Ptr → Bool) (b : Ptr) (flag : Bool) (s t : BlockIndex Ptr) :
    Prop where
  tree : t.tree = s.tree
  unlinked : t.mapBlocksUnlinked = s.mapBlocksUnlinked
  tip : s.tree.IsAncestor t.tip s.tip
  marks : ∀ x, t.marks x = s.marks x ∨
    s.tree.IsAncestor b x ∧ t.marks x = { s.marks x with failedChild := true }
  candidates : ∀ c ∈ t.setBlockIndexCandidates, c ∈ s.setBlockIndexCandidates
  away : flag = true → ¬ s.tree.IsAncestor b t.tip
  stuck : flag = false → ∃ a, s.tree.IsAncestor b a ∧ s.tree.IsAncestor a s.tip ∧
    ¬ ((s.marks a).haveUndo = true ∧ disconnects a = true)

theorem failBlock_marks (x : Ptr) : (s.failBlock b).marks x =
    if x = b then { s.marks x with failedValid := true } else s.marks x := by
  have marked : (s.failBlock b).marks x =
      (s.mark b fun marks => { marks with failedValid := true }).marks x := rfl
  rw [marked, mark_marks]
  split
  · rename_i same
    rw [same]
  · rfl

@[simp] theorem failBlock_haveUndo (x : Ptr) :
    ((s.failBlock b).marks x).haveUndo = (s.marks x).haveUndo := by
  rw [failBlock_marks]
  split <;> rfl

theorem failTip_marks (x : Ptr) : s.failTip.marks x =
    if x = s.tip then { s.marks x with failedChild := true } else s.marks x := by
  have marked : s.failTip.marks x =
      (s.mark s.tip fun marks => { marks with failedChild := true }).marks x := rfl
  rw [marked, mark_marks]
  split
  · rename_i same
    rw [same]
  · rfl

@[simp] theorem failTip_haveUndo (x : Ptr) :
    (s.failTip.marks x).haveUndo = (s.marks x).haveUndo := by
  rw [failTip_marks]
  split <;> rfl

theorem marks_of_failTip {marks : BlockMarks} {x : Ptr} (below : s.tree.IsAncestor b s.tip)
    (result : marks = s.failTip.marks x ∨
      s.tree.IsAncestor b x ∧ marks = { s.failTip.marks x with failedChild := true }) :
    marks = s.marks x ∨ s.tree.IsAncestor b x ∧ marks = { s.marks x with failedChild := true } := by
  rw [failTip_marks] at result
  split at result
  · rename_i same
    rw [same]
    refine .inr ⟨below, ?_⟩
    rw [same] at result
    rcases result with marked | ⟨-, marked⟩
    · exact marked
    · exact marked
  · exact result

theorem disconnectInvalid_eq_some {fuel : ℕ} (enough : s.tree.nHeight s.tip < fuel)
    (result : disconnectInvalid disconnects b fuel s = some (flag, t)) :
    Withdrawn disconnects b flag s t := by
  induction fuel generalizing s with
  | zero => omega
  | succ fuel ih =>
    simp only [disconnectInvalid] at result
    split at result
    · rename_i inside
      have below : s.tree.IsAncestor b s.tip := contains_iff.mp inside
      split at result
      · cases result
      · rename_i stuck tried
        obtain ⟨rfl, rfl⟩ := result
        rcases disconnectTip_eq_some tried with ⟨-, rfl, failing⟩ | ⟨impossible, -⟩
        · exact {
            tree := rfl
            unlinked := rfl
            tip := isAncestor_refl _
            marks x := marks_of_failTip below (.inl rfl)
            candidates c mem := List.mem_of_mem_filter mem
            away impossible := by cases impossible
            stuck _ := by
              rw [failTip_haveUndo] at failing
              exact ⟨s.tip, below, isAncestor_refl _, failing⟩ }
        · cases impossible
      · rename_i lower tried
        rcases disconnectTip_eq_some tried with ⟨impossible, -⟩ | ⟨-, p, above, rfl⟩
        · cases impossible
        · have parent : s.tree.pprev s.tip = some p := above
          have grown := s.tree.grows s.tip p parent
          have lowered := BlockTree.isAncestor_of_pprev parent
          have rest := ih (show s.tree.nHeight p < fuel by omega) result
          exact {
            tree := rest.tree
            unlinked := rest.unlinked
            tip := rest.tip.trans lowered
            marks x := marks_of_failTip below (rest.marks x)
            candidates c mem := List.mem_of_mem_filter (rest.candidates c mem)
            away := rest.away
            stuck ended := by
              obtain ⟨a, onBranch, onChain, failing⟩ := rest.stuck ended
              rw [failTip_haveUndo] at failing
              exact ⟨a, onBranch, onChain.trans lowered, failing⟩ }
    · rename_i outside
      obtain ⟨rfl, rfl⟩ := result
      exact {
        tree := rfl
        unlinked := rfl
        tip := isAncestor_refl _
        marks _ := .inl rfl
        candidates _ mem := mem
        away _ := by rwa [contains_iff] at outside
        stuck impossible := by cases impossible }

end Invalidate

end DogeCash.BlockIndex
