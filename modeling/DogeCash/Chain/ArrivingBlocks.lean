import DogeCash.Chain.LoadBlockIndex
import DogeCash.Chain.Settlement

/-! # Blocks that arrive

The index of a node that adds headers to its tree and receives the data of blocks, each in any
order. What the node has for a block is never taken back, so that a count of transactions that is
not zero in the end was not zero when it was set.
-/

namespace DogeCash

open Function (update update_of_ne update_self)

/-- `GetBlockProof` of an entry with these bits. -/
def getBlockProof (nBits : UInt32) : UInt256 :=
  let bnTarget := UInt256.setCompact nBits
  let (fNegative, fOverflow) := UInt256.compactFlags nBits
  if fNegative || fOverflow || bnTarget = 0 then 0 else ~~~bnTarget / (bnTarget + 1) + 1

/-- The block index of a node with the bits of the entries, from which their work is computed. -/
structure NodeIndex (Ptr : Type) extends BlockIndex Ptr where
  nBits : Ptr → UInt32

/-- A call with a block: its header, or its hash and the number of its transactions. -/
inductive BlockCall where
  | addToBlockIndex (header : Wire.CBlockHeader)
  | receivedBlockTransactions (hash : UInt256) (nTx : ℕ)

section Calls

variable {Ptr : Type} [LinearOrder Ptr] (env : IndexEnv) (address : UInt256 ↪ Ptr)

def NodeIndex.genesis (header : Wire.CBlockHeader) : NodeIndex Ptr where
  toBlockIndex := .genesis (address (header.getHash env)) (getBlockProof header.nBits).toNat
  nBits _ := header.nBits

/-- `AddToBlockIndex`, or `ReceivedBlockTransactions` as `AcceptBlock` calls it. The entry of a hash
has one address, at which it stays. -/
def NodeIndex.arrive : BlockCall → NodeIndex Ptr → Option (NodeIndex Ptr)
  | .addToBlockIndex header, node =>
    let pindex := address (header.getHash env)
    (node.addToBlockIndex pindex (address header.hashPrevBlock)
      (getBlockProof header.nBits).toNat).map fun index =>
        { toBlockIndex := index
          nBits :=
            if pindex ∈ node.tree.blocks then node.nBits
            else update node.nBits pindex header.nBits }
  | .receivedBlockTransactions hash nTx, node =>
    (node.acceptBlock (address hash) nTx).map fun index => { node with toBlockIndex := index }

end Calls

/-! ## What receiving a block changes -/

namespace BlockIndex

variable {Ptr : Type} {s t u : BlockIndex Ptr} {b c prev : Ptr}

/-- Blocks have been linked at most. -/
structure Relinked (s t : BlockIndex Ptr) : Prop where
  tree : t.tree = s.tree
  marks : ∀ x, ∃ nChainTx nSequenceId, t.marks x =
    { s.marks x with nChainTx := nChainTx, nSequenceId := nSequenceId }

namespace Relinked

theorem refl (s : BlockIndex Ptr) : Relinked s s := ⟨rfl, fun _ => ⟨_, _, rfl⟩⟩

theorem trans (first : Relinked s t) (second : Relinked t u) : Relinked s u := by
  refine ⟨second.tree.trans first.tree, fun x => ?_⟩
  obtain ⟨_, _, before⟩ := first.marks x
  obtain ⟨nChainTx, nSequenceId, after⟩ := second.marks x
  rw [before] at after
  exact ⟨nChainTx, nSequenceId, after⟩

variable (relinked : Relinked s t) (x : Ptr)
include relinked

theorem nTx : (t.marks x).nTx = (s.marks x).nTx := by
  obtain ⟨_, _, same⟩ := relinked.marks x
  rw [same]

theorem haveData : (t.marks x).haveData = (s.marks x).haveData := by
  obtain ⟨_, _, same⟩ := relinked.marks x
  rw [same]

theorem failed : (t.marks x).failed = (s.marks x).failed := by
  obtain ⟨_, _, same⟩ := relinked.marks x
  rw [same]
  rfl

end Relinked

/-- What a node knows of its blocks stays: their places in the tree, and the data. -/
structure Extends (s t : BlockIndex Ptr) : Prop where
  known : ∀ x ∈ s.tree.blocks, x ∈ t.tree.blocks
  isAncestor : ∀ x ∈ s.tree.blocks, ∀ a, t.tree.IsAncestor a x ↔ s.tree.IsAncestor a x
  chainTx : ∀ x ∈ s.tree.blocks, ∀ count, t.tree.chainTx count x = s.tree.chainTx count x
  data : ∀ x ∈ s.tree.blocks, (s.marks x).haveData = true →
    (t.marks x).haveData = true ∧ (t.marks x).nTx = (s.marks x).nTx

namespace Extends

theorem refl (s : BlockIndex Ptr) : Extends s s :=
  ⟨fun _ => id, fun _ _ _ => Iff.rfl, fun _ _ _ => rfl, fun _ _ data => ⟨data, rfl⟩⟩

theorem trans (first : Extends s t) (second : Extends t u) : Extends s u where
  known x mem := second.known x (first.known x mem)
  isAncestor x mem a := by
    rw [second.isAncestor x (first.known x mem), first.isAncestor x mem]
  chainTx x mem count := by
    rw [second.chainTx x (first.known x mem), first.chainTx x mem]
  data x mem data := by
    obtain ⟨here, count⟩ := first.data x mem data
    obtain ⟨there, same⟩ := second.data x (first.known x mem) here
    exact ⟨there, same.trans count⟩

variable (extended : Extends s t)
include extended

theorem hasChainData (mem : b ∈ s.tree.blocks) (data : s.HasChainData b) : t.HasChainData b := by
  intro a ancestor
  have before := (extended.isAncestor b mem a).mp ancestor
  exact (extended.data a (before.mem mem) (data a before)).1

theorem chainTx_eq (mem : b ∈ s.tree.blocks) (data : s.HasChainData b) :
    t.tree.chainTx (fun a => (t.marks a).nTx) b = s.tree.chainTx (fun a => (s.marks a).nTx) b := by
  rw [extended.chainTx b mem]
  exact BlockTree.chainTx_congr fun a ancestor =>
    (extended.data a (ancestor.mem mem) (data a ancestor)).2

end Extends

def ChainsCounted (s : BlockIndex Ptr) : Prop :=
  ∀ b ∈ s.tree.blocks, s.HasChainData b → s.tree.chainTx (fun a => (s.marks a).nTx) b % 2 ^ 32 ≠ 0

variable [LinearOrder Ptr] {nProof nTx : ℕ}

theorem relinked_link : Relinked s (s.link b) := by
  refine ⟨rfl, fun x => ?_⟩
  rw [link_marks]
  by_cases same : x = b
  · subst same
    rw [update_self]
    exact ⟨_, _, rfl⟩
  · rw [update_of_ne same]
    exact ⟨_, _, rfl⟩

theorem relinked_linkQueue (fuel : ℕ) (queue : List Ptr) : Relinked s (linkQueue fuel queue s) := by
  induction fuel generalizing s queue with
  | zero => exact .refl s
  | succ fuel ih =>
    cases queue with
    | nil => exact .refl s
    | cons b queue => exact relinked_link.trans (ih _)

theorem relinked_receivedBlockTransactions :
    Relinked (s.receive b nTx) (s.receivedBlockTransactions b nTx) := by
  simp only [receivedBlockTransactions]
  split_ifs
  · exact relinked_linkQueue _ _
  · unfold unlink
    split
    · exact .refl _
    · split_ifs
      · exact ⟨rfl, fun _ => ⟨_, _, rfl⟩⟩
      · exact .refl _

theorem extends_receivedBlockTransactions (accepted : s.accepts b nTx = true) :
    Extends s (s.receivedBlockTransactions b nTx) := by
  obtain ⟨-, missing, -⟩ := accepts_iff.mp accepted
  have relinked : Relinked (s.receive b nTx) (s.receivedBlockTransactions b nTx) :=
    relinked_receivedBlockTransactions
  have tree : (s.receivedBlockTransactions b nTx).tree = s.tree := relinked.tree
  refine ⟨fun x mem => ?_, fun x _ a => ?_, fun x _ count => ?_, fun x _ data => ?_⟩
  · rwa [tree]
  · rw [tree]
  · rw [tree]
  · have ne : x ≠ b := by
      rintro rfl
      rw [missing] at data
      cases data
    rw [relinked.haveData, relinked.nTx, receive_marks_of_ne ne]
    exact ⟨data, rfl⟩

theorem Added.extends_added (added : Added b prev nProof s t) : Extends s t where
  known _ mem := added.mem_iff.mpr (.inr mem)
  isAncestor _ mem _ := added.isAncestor mem
  chainTx x mem count := by rw [added.tree, BlockTree.add_chainTx _ mem]
  data x mem data := by
    rw [added.marks x mem]
    exact ⟨data, rfl⟩

theorem Extends.countFits
    (extended : Extends (s.receivedBlockTransactions b nTx) t) (counted : t.ChainsCounted) :
    s.CountFits b nTx := by
  intro c mem ancestor others
  have relinked : Relinked (s.receive b nTx) (s.receivedBlockTransactions b nTx) :=
    relinked_receivedBlockTransactions
  have tree : (s.receivedBlockTransactions b nTx).tree = s.tree := relinked.tree
  have known : c ∈ (s.receivedBlockTransactions b nTx).tree.blocks := by rwa [tree]
  have data : (s.receivedBlockTransactions b nTx).HasChainData c := by
    intro a higher
    rw [tree] at higher
    rw [relinked.haveData, receive_haveData]
    by_cases same : a = b
    · exact .inl same
    · exact .inr (others a higher same)
  have count := counted c (extended.known c known) (extended.hasChainData known data)
  rw [extended.chainTx_eq known data, tree] at count
  simp only [relinked.nTx, receive_nTx] at count
  exact count

end BlockIndex

/-! ## Runs -/

namespace NodeIndex

variable {Ptr : Type} [LinearOrder Ptr] {env : IndexEnv} {address : UInt256 ↪ Ptr}
  {node next : NodeIndex Ptr} {call : BlockCall}

/-- The invariant of a node in which no block has failed. -/
structure Maintained (node : NodeIndex Ptr) : Prop where
  complete : node.toBlockIndex.Complete
  unfailed : ∀ b ∈ node.tree.blocks, (node.marks b).failed = false
  work : ∀ b ∈ node.tree.blocks, node.tree.nChainWork b =
    ((node.tree.pprev b).elim 0 node.tree.nChainWork + (getBlockProof (node.nBits b)).toNat) %
      2 ^ 256

theorem maintained_genesis (env : IndexEnv) (address : UInt256 ↪ Ptr)
    (header : Wire.CBlockHeader) : (genesis env address header).Maintained where
  complete := BlockIndex.complete_genesis _ _
  unfailed b mem := by
    cases List.mem_singleton.mp mem
    exact congrArg BlockMarks.failed (BlockIndex.genesis_marks _ _)
  work b mem := by
    cases List.mem_singleton.mp mem
    exact congrArg (· % 2 ^ 256) (Nat.zero_add _).symm

theorem Maintained.added {b prev : Ptr} {nBits : UInt32} {index : BlockIndex Ptr}
    (maintained : node.Maintained)
    (added : node.Added b prev (getBlockProof nBits).toNat index) :
    Maintained { toBlockIndex := index, nBits := update node.nBits b nBits } := by
  refine ⟨maintained.complete.added added, fun x mem => ?_, fun x mem => ?_⟩
  · rcases added.mem_iff.mp mem with rfl | known
    · exact congrArg BlockMarks.failed added.new
    · exact (congrArg BlockMarks.failed (added.marks x known)).trans (maintained.unfailed x known)
  · have old : ∀ y ∈ node.tree.blocks, index.tree.nChainWork y = node.tree.nChainWork y := by
      intro y known
      rw [added.tree]
      exact update_of_ne (ne_of_mem_of_not_mem known added.fresh) ..
    dsimp only
    rcases added.mem_iff.mp mem with rfl | known
    · have above : index.tree.pprev x = some prev := by
        rw [added.tree]
        exact update_self ..
      rw [above, Option.elim_some, old prev added.found, update_self, added.tree]
      exact update_self ..
    · have ne := ne_of_mem_of_not_mem known added.fresh
      rw [old x known, added.pprev known, update_of_ne ne, maintained.work x known]
      cases above : node.tree.pprev x with
      | none => rfl
      | some p => rw [Option.elim_some, Option.elim_some, old p (node.tree.known x p above).2]

theorem Maintained.received {b : Ptr} {nTx : ℕ} (maintained : node.Maintained)
    (accepted : node.accepts b nTx = true) (fits : node.CountFits b nTx) :
    Maintained { node with toBlockIndex := node.receivedBlockTransactions b nTx } := by
  have relinked : BlockIndex.Relinked (node.receive b nTx) (node.receivedBlockTransactions b nTx) :=
    BlockIndex.relinked_receivedBlockTransactions
  have tree : (node.receivedBlockTransactions b nTx).tree = node.tree := relinked.tree
  refine ⟨maintained.complete.receivedBlockTransactions accepted fits, fun x mem => ?_, ?_⟩
  · have before := maintained.unfailed x (tree ▸ mem)
    rw [relinked.failed]
    by_cases same : x = b
    · subst same
      rw [BlockIndex.receive_marks_self, BlockMarks.raiseValidity_eq]
      exact before
    · rwa [BlockIndex.receive_marks_of_ne same]
  · rw [tree]
    exact maintained.work

theorem arrive_cases (arrived : arrive env address call node = some next) :
    next = node ∨
      (∃ b prev nBits index, node.Added b prev (getBlockProof nBits).toNat index ∧
        next = { toBlockIndex := index, nBits := update node.nBits b nBits }) ∨
      ∃ b nTx, node.accepts b nTx = true ∧
        next = { node with toBlockIndex := node.receivedBlockTransactions b nTx } := by
  cases call with
  | addToBlockIndex header =>
    obtain ⟨index, performed, rfl⟩ := Option.map_eq_some_iff.mp arrived
    by_cases known : address (header.getHash env) ∈ node.tree.blocks
    · rw [BlockIndex.addToBlockIndex_of_known known] at performed
      cases performed
      rw [if_pos known]
      exact .inl rfl
    · rw [if_neg known]
      exact .inr (.inl ⟨_, _, _, index, BlockIndex.added_of_fresh known performed, rfl⟩)
  | receivedBlockTransactions hash nTx =>
    obtain ⟨index, performed, rfl⟩ := Option.map_eq_some_iff.mp arrived
    obtain ⟨accepted, same⟩ := Option.ite_none_right_eq_some.mp performed
    cases same
    exact .inr (.inr ⟨_, _, accepted, rfl⟩)

theorem extends_of_arrive (arrived : arrive env address call node = some next) :
    node.Extends next.toBlockIndex := by
  rcases arrive_cases arrived with rfl | ⟨b, prev, nBits, index, added, rfl⟩ |
    ⟨b, nTx, accepted, rfl⟩
  · exact .refl _
  · exact added.extends_added
  · exact BlockIndex.extends_receivedBlockTransactions accepted

theorem maintained_of_run {calls : List BlockCall} {final : NodeIndex Ptr}
    (runs : run (arrive env address) calls node = some final) (counted : final.ChainsCounted)
    (maintained : node.Maintained) : final.Maintained := by
  induction calls generalizing node with
  | nil =>
    cases runs
    exact maintained
  | cons call rest ih =>
    obtain ⟨next, arrived, later⟩ := run_cons_eq_some runs
    have extended : next.Extends final.toBlockIndex :=
      run_invariant (fun other => next.Extends other.toBlockIndex)
        (fun _ _ before after extended arrived => extended.trans (extends_of_arrive arrived))
        later (.refl _)
    refine ih later ?_
    rcases arrive_cases arrived with rfl | ⟨b, prev, nBits, index, added, rfl⟩ |
      ⟨b, nTx, accepted, rfl⟩
    · exact maintained
    · exact maintained.added added
    · exact maintained.received accepted (extended.countFits counted)

end NodeIndex

end DogeCash
