import DogeCash.Mining.Candidates
import DogeCash.Validation.Supply
import DogeCash.Wallet.CoinStake

/-! # Block templates and the limits of a block

`CreateNewBlock` counts 1000 bytes and 100 signature operations for what a block has besides the
selected transactions: the header, the coinbase, the coinstake and the signature. What it selects
stays below the maximum size, less what it counted at the start, and below the maximum number of
signature operations. So the block is within its limits as long as the rest of it is no larger
than what was counted for it, and what the maximum size leaves open.
-/

namespace DogeCash

/-- A coinstake that `CreateCoinStake` has made, with its id. -/
def CMutableTransaction.toTransaction (txNew : CMutableTransaction) (hash : UInt256) :
    CTransaction := ⟨hash, 1, txNew.vin, txNew.vout, 0⟩

/-- What a proof-of-stake block has besides the selected transactions. The script of the coinbase
has the height and the extra nonce. `IncrementExtraNonce` asserts that it is short,
`CreateCoinStake` and `CheckTransaction` limit the size of a coinstake, and the signature is one
of a key. -/
structure BlockFrame where
  nVersion : Int
  coinbaseHash : UInt256
  coinbaseScript : CScript
  coinstake : CTransaction
  vchBlockSig : List UInt8
  short : coinbaseScript.length ≤ 100
  notSpend : CScript.isZerocoinSpend coinbaseScript = false
  marked : coinstake.isCoinStake = true
  sized : coinstake.serializeSize ≤ maxZerocoinTxSize
  signed : vchBlockSig.length ≤ 100

namespace BlockFrame

variable (frame : BlockFrame)

def coinbase : CTransaction :=
  ⟨frame.coinbaseHash, 1, [⟨.null, frame.coinbaseScript, 0xffffffff⟩], [.of 0 []], 0⟩

def vtx (selected : List CTransaction) : List CTransaction :=
  frame.coinbase :: frame.coinstake :: selected

def serializeSize (selected : List CTransaction) : ℕ :=
  serializeSizeOfBlock frame.nVersion (frame.vtx selected) frame.vchBlockSig

def overhead : ℕ :=
  headerSerializeSize frame.nVersion + frame.coinbase.serializeSize +
    frame.coinstake.serializeSize +
    (getSizeOfCompactSize frame.vchBlockSig.length + frame.vchBlockSig.length)

def nSigOps : ℕ := frame.coinbase.getLegacySigOpCount + frame.coinstake.getLegacySigOpCount

theorem serializeSize_eq (selected : List CTransaction) :
    frame.serializeSize selected = frame.overhead + getSizeOfCompactSize (selected.length + 1 + 1) +
      (selected.map CTransaction.serializeSize).sum := by
  unfold serializeSize serializeSizeOfBlock vtx overhead
  dsimp only
  rw [if_pos frame.marked, List.length_cons, List.length_cons, List.map_cons, List.map_cons,
    List.sum_cons, List.sum_cons]
  omega

theorem isCoinBase_coinbase : frame.coinbase.isCoinBase = true := by
  simp [coinbase, CTransaction.isCoinBase, CTransaction.containsZerocoins,
    CTransaction.isZerocoinSpend, CTransaction.isZerocoinMint, COutPoint.isNull, COutPoint.null,
    frame.notSpend]
  rfl

theorem getSizeOfCompactSize_le {nSize limit : ℕ} (small : nSize ≤ 0xffff) (le : 3 ≤ limit) :
    getSizeOfCompactSize nSize ≤ limit := by
  unfold getSizeOfCompactSize
  split_ifs
  · omega
  · omega

theorem overhead_le : frame.overhead ≤ 1900000 := by
  have header : headerSerializeSize frame.nVersion ≤ 112 := by
    unfold headerSerializeSize
    split_ifs
    · exact le_rfl
    · decide
  have sig := frame.signed
  have script := frame.short
  have sized : frame.coinstake.serializeSize ≤ 1500000 := frame.sized
  have sigPrefix : getSizeOfCompactSize frame.vchBlockSig.length ≤ 3 :=
    getSizeOfCompactSize_le (by omega) le_rfl
  have scriptPrefix : getSizeOfCompactSize frame.coinbaseScript.length ≤ 3 :=
    getSizeOfCompactSize_le (by omega) le_rfl
  have coinbase : frame.coinbase.serializeSize ≤ 200 := by
    simp only [coinbase, CTransaction.serializeSize, CTxIn.serializeSize, CTxOut.serializeSize,
      CScript.serializeSize, CTxOut.of, List.length_singleton, List.length_nil, List.map_cons,
      List.map_nil, List.sum_cons, List.sum_nil]
    have one : getSizeOfCompactSize 1 = 1 := rfl
    have zero : getSizeOfCompactSize 0 = 1 := rfl
    omega
  unfold overhead
  omega

end BlockFrame

/-- The maximum size for a value of `-blockmaxsize`. -/
def MinerEnv.maxSizeFor (blockMaxSize : Int) : ℕ :=
  max 1000 (min (maxBlockSizeCurrent - 1000) (unsignedInt blockMaxSize))

/-- What a block is put together from: the coins and the pool, whose transactions have passed
`CheckTransaction`, and a coinstake of an output that is no pay-to-script-hash output. The ids of
the coinbase and the coinstake are new. -/
structure MinerEnv.Suits (env : MinerEnv) (frame : BlockFrame) : Prop where
  wellFormed : env.pcoinsTip.WellFormed
  checked : ∀ tx, env.pool.Holds tx → ∃ fZerocoinActive fFakeSerialAttack fColdStakingActive,
    env.node.checkTransaction tx fZerocoinActive fFakeSerialAttack fColdStakingActive = .ok ()
  staked : ∀ txin ∈ frame.coinstake.vin,
    CScript.isPayToScriptHash (env.pcoinsTip.outputFor txin.prevout).scriptPubKey = false
  newCoins : ∀ tx ∈ [frame.coinbase, frame.coinstake], (env.pcoinsTip tx.hash).isPruned = true
  newTx : ∀ tx ∈ [frame.coinbase, frame.coinstake], ∀ other, env.pool.Holds other →
    other.hash ≠ tx.hash

/-- The loop of `ConnectBlock` over the transactions never counts too many signature
operations. -/
def Node.ConnectsWithinSigOps (node : Node) (entry : BlockEntry) (block : CBlock)
    (view : CoinsMap) : Prop :=
  ∀ before tx after acct, block.vtx = before ++ tx :: after →
    before.foldlM (node.connectTransaction entry block) { view := view } = .ok acct →
      acct.nSigOps + tx.getLegacySigOpCount ≤ maxBlockSigOps ∧
      (tx.spendsCoins = true → acct.view.haveInputs tx = true →
        acct.nSigOps + tx.getLegacySigOpCount + acct.view.getP2SHSigOpCount tx ≤ maxBlockSigOps)

/-- The size of the block is one that `CheckBlock` accepts. -/
def MinerEnv.WithinSize (env : MinerEnv) (frame : BlockFrame) : Prop :=
  ∀ vtx, env.selectedTransactions = some vtx → frame.serializeSize vtx ≤ maxBlockSizeCurrent

/-- The signature operations of the block are accepted by `CheckBlock` and `ConnectBlock`. -/
def MinerEnv.WithinSigOps (env : MinerEnv) (frame : BlockFrame) : Prop :=
  ∀ vtx, env.selectedTransactions = some vtx →
    ((frame.vtx vtx).map CTransaction.getLegacySigOpCount).sum ≤ maxBlockSigOps ∧
    ∀ entry block, block.vtx = frame.vtx vtx →
      env.node.ConnectsWithinSigOps entry block env.pcoinsTip

/-! ## Where the transactions come from -/

/-- What is in the heap or waits has a property. -/
structure Entered (property : CTransaction → Prop) (vecPriority : List TxPriority)
    (vOrphan : List (Option COrphan)) : Prop where
  ready : ∀ priority ∈ vecPriority, property priority.ptx
  waits : ∀ cell ∈ vOrphan, ∀ orphan, cell = some orphan → property orphan.ptx

theorem forall_mem_modify {α : Type*} {property : α → Prop} {items : List α} {change : α → α}
    (all : ∀ item ∈ items, property item) (changed : ∀ item, property item → property (change item))
    (index : ℕ) : ∀ item ∈ items.modify index change, property item := by
  induction items generalizing index with
  | nil =>
    rw [List.modify_nil]
    exact all
  | cons first rest ih =>
    obtain ⟨here, others⟩ := List.forall_mem_cons.mp all
    cases index with
    | zero => exact List.forall_mem_cons.mpr ⟨changed first here, others⟩
    | succ index =>
      exact List.forall_mem_cons.mpr ⟨here, ih others index⟩

namespace Entered

variable {property : CTransaction → Prop} {vecPriority : List TxPriority}
  {vOrphan : List (Option COrphan)}

section

variable (entered : Entered property vecPriority vOrphan)
include entered

theorem modify (index : ℕ) {change : COrphan → COrphan}
    (same : ∀ orphan, (change orphan).ptx = orphan.ptx) :
    Entered property vecPriority (vOrphan.modify index (Option.map change)) := by
  refine ⟨entered.ready, forall_mem_modify entered.waits (fun cell kept orphan own => ?_) index⟩
  obtain ⟨old, rfl, rfl⟩ := Option.map_eq_some_iff.mp own
  rw [same]
  exact kept old rfl

theorem set (index : ℕ) {value : Option COrphan}
    (kept : ∀ orphan, value = some orphan → property orphan.ptx) :
    Entered property vecPriority (vOrphan.set index value) := by
  refine ⟨entered.ready, fun cell mem => ?_⟩
  rcases List.mem_or_eq_of_mem_set mem with old | rfl
  · exact entered.waits cell old
  · exact kept

theorem rearrange {others : List TxPriority}
    (kept : ∀ priority ∈ others, priority ∈ vecPriority ∨ property priority.ptx) :
    Entered property others vOrphan := by
  refine ⟨fun priority mem => ?_, entered.waits⟩
  rcases kept priority mem with old | new
  · exact entered.ready priority old
  · exact new

end

end Entered

namespace Candidates

variable {env : MinerEnv} {property : CTransaction → Prop} {tx : CTransaction}
  {candidates : Candidates}

theorem entered_waitFor (entered : Entered property candidates.vecPriority candidates.vOrphan)
    (own : property tx) (porphan : Option ℕ) (hash : UInt256) :
    Entered property (candidates.waitFor tx porphan hash).2.vecPriority
      (candidates.waitFor tx porphan hash).2.vOrphan := by
  have cell : Entered property candidates.vecPriority (candidates.orphanFor tx porphan).2 := by
    cases porphan with
    | some index => exact entered
    | none =>
      refine ⟨entered.ready, fun cell mem orphan is => ?_⟩
      rcases List.mem_append.mp mem with old | new
      · exact entered.waits cell old orphan is
      · rw [List.mem_singleton.mp new] at is
        cases is
        exact own
  exact cell.modify _ fun _ => rfl

theorem entered_gatherInputs {inputs : List CTxIn} {scan after : InputScan} (own : property tx)
    (entered : Entered property scan.candidates.vecPriority scan.candidates.vOrphan)
    (gathers : env.gatherInputs tx inputs scan = .ok after) :
    Entered property after.candidates.vecPriority after.candidates.vOrphan := by
  induction inputs generalizing scan with
  | nil =>
    cases gathers
    exact entered
  | cons txin rest ih =>
    unfold MinerEnv.gatherInputs at gathers
    split_ifs at gathers
    · refine ih ?_ gathers
      exact entered
    · split at gathers
      · cases gathers
        cases porphan : scan.porphan with
        | none => exact entered
        | some index => exact entered.set index nofun
      · dsimp only at gathers
        split at gathers
        · cases gathers
        · refine ih ?_ gathers
          exact entered_waitFor entered own _ _
    · cases gathers
      exact entered
    · split at gathers
      · cases gathers
      · refine ih ?_ gathers
        exact entered

variable {after : Candidates}

theorem entered_gatherTransaction (own : property tx)
    (entered : Entered property candidates.vecPriority candidates.vOrphan)
    (gathers : env.gatherTransaction candidates tx = .ok after) :
    Entered property after.vecPriority after.vOrphan := by
  unfold MinerEnv.gatherTransaction at gathers
  split_ifs at gathers
  · cases gathers
    exact entered
  · obtain ⟨scan, scans, gathers⟩ := bind_eq_ok.mp gathers
    have scanned := entered_gatherInputs own entered scans
    split_ifs at gathers
    · cases gathers
      exact scanned
    · obtain ⟨nValueOut, -, gathers⟩ := bind_eq_ok.mp gathers
      cases gathers
      unfold MinerEnv.enter
      cases scan.porphan with
      | none =>
        refine scanned.rearrange fun priority mem => ?_
        refine (List.mem_append.mp mem).imp_right fun new => ?_
        rw [List.mem_singleton.mp new]
        exact own
      | some index => exact scanned.modify index fun _ => rfl

theorem entered_gather (gathers : env.gather = .ok after) :
    Entered env.pool.Holds after.vecPriority after.vOrphan := by
  refine foldlM_invariant (fun candidates =>
    Entered env.pool.Holds candidates.vecPriority candidates.vOrphan) ?_ gathers ⟨nofun, nofun⟩
  intro tx mem before next entered step
  exact entered_gatherTransaction (holds_of_mem mem) entered step

end Candidates

/-! ## What the loop has counted -/

/-- Transactions that were added one after another, each when the view had its inputs, with the
signature operations that were counted for each and the view after them. -/
inductive Counted (nHeight : Int32) (start : CoinsMap) :
    List CTransaction → List ℕ → CoinsMap → Prop
  | nothing : Counted nHeight start [] [] start
  | next {vtx : List CTransaction} {vTxSigOps : List ℕ} {view after : CoinsMap}
      {tx : CTransaction} {txundo : CTxUndo} (before : Counted nHeight start vtx vTxSigOps view)
      (has : view.haveInputs tx = true)
      (updates : view.updateCoins tx nHeight = some (after, txundo)) :
      Counted nHeight start (vtx ++ [tx])
        (vTxSigOps ++ [tx.getLegacySigOpCount + view.getP2SHSigOpCount tx]) after

/-- What holds of the loop that adds transactions in every state. -/
structure Measured (env : MinerEnv) (selection : Selection) : Prop where
  entered : Entered env.pool.Holds selection.vecPriority selection.vOrphan
  fromPool : ∀ tx ∈ selection.vtx, env.pool.Holds tx
  size : selection.nBlockSize = 1000 + (selection.vtx.map CTransaction.serializeSize).sum
  small : selection.vtx = [] ∨ selection.nBlockSize < env.nBlockMaxSize
  sigOps : selection.nBlockSigOps = 100 + selection.vTxSigOps.sum
  few : selection.nBlockSigOps < maxBlockSigOps
  counted : Counted (Int32.ofInt env.nHeight) env.pcoinsTip selection.vtx selection.vTxSigOps
    selection.view

namespace Measured

variable {env : MinerEnv} {mapDependers : UInt256 → List ℕ} {before after : Selection}
  {tx : CTransaction}

theorem requeue (measured : Measured env before)
    (same : after = { before with
      vOrphan := after.vOrphan, vecPriority := after.vecPriority
      fSortedByFee := after.fSortedByFee, vTxSerials := after.vTxSerials })
    (entered : Entered env.pool.Holds after.vecPriority after.vOrphan) : Measured env after := by
  obtain ⟨-, fromPool, size, small, sigOps, few, counted⟩ := measured
  rw [same] at entered ⊢
  exact ⟨entered, fromPool, size, small, sigOps, few, counted⟩

section

variable (measured : Measured env before)
include measured

theorem release {hash : UInt256} {index : ℕ} (releases : env.release hash before index = .ok after) :
    Measured env after := by
  unfold MinerEnv.release at releases
  split at releases
  · rename_i orphan slot
    have own : env.pool.Holds orphan.ptx :=
      measured.entered.waits _ (List.mem_of_getElem? slot) orphan rfl
    dsimp only at releases
    split_ifs at releases
    · cases releases
      exact measured
    · cases releases
      refine measured.requeue rfl ((measured.entered.set index ?_).rearrange ?_)
      · rintro other ⟨⟩
        exact own
      · intro priority mem
        rcases List.mem_cons.mp ((env.heap.push_perm _ _ _).mem_iff.mp mem) with rfl | old
        · exact .inr own
        · exact .inl old
    · cases releases
      refine measured.requeue rfl (measured.entered.set index ?_)
      rintro other ⟨⟩
      exact own
  · cases releases

theorem resort (priority : TxPriority) : Measured env (env.resort priority before) := by
  unfold MinerEnv.resort
  split_ifs
  · exact measured.requeue rfl (measured.entered.rearrange fun other mem =>
      .inl ((env.heap.makeHeap_perm _ _).mem_iff.mp mem))
  · exact measured

theorem pop {first : TxPriority} {rest : List TxPriority}
    (heap : before.vecPriority = first :: rest) :
    env.pool.Holds first.ptx ∧ Measured env { before with
      vecPriority := env.heap.removeFirst (txPriorityCompare before.fSortedByFee)
        before.vecPriority } := by
  refine ⟨measured.entered.ready first (heap ▸ List.mem_cons_self), ?_⟩
  refine measured.requeue rfl (measured.entered.rearrange fun other mem => .inl ?_)
  rw [heap] at mem ⊢
  exact List.mem_cons_of_mem _ ((env.heap.removeFirst_perm _ first rest).mem_iff.mp mem)

/-- A transaction is added that leaves the block below the limits. -/
theorem addTx (own : env.pool.Holds tx)
    (fits : before.nBlockSize + tx.serializeSize < env.nBlockMaxSize)
    (has : before.view.haveInputs tx = true)
    (few : before.nBlockSigOps + (tx.getLegacySigOpCount + before.view.getP2SHSigOpCount tx) <
      maxBlockSigOps) {view : CoinsMap} {txundo : CTxUndo}
    (updates : before.view.updateCoins tx (Int32.ofInt env.nHeight) = some (view, txundo))
    {nTxFees : Int} (adds : env.addTx mapDependers tx nTxFees
      (tx.getLegacySigOpCount + before.view.getP2SHSigOpCount tx) view before = .ok after) :
    Measured env after := by
  refine foldlM_invariant (Measured env) (fun _ _ _ _ held step => held.release step) adds ?_
  refine ⟨measured.entered, fun other mem => ?_, ?_, .inr fits, ?_, few,
    measured.counted.next has updates⟩
  · rcases List.mem_append.mp mem with old | new
    · exact measured.fromPool other old
    · rw [List.mem_singleton.mp new]
      exact own
  · rw [List.map_append, List.sum_append, measured.size, List.map_singleton, List.sum_singleton,
      Nat.add_assoc]
  · rw [List.sum_append, measured.sigOps, List.sum_singleton, Nat.add_assoc]

theorem considerCoins (own : env.pool.Holds tx)
    (fits : before.nBlockSize + tx.serializeSize < env.nBlockMaxSize)
    (has : before.view.haveInputs tx = true)
    (considers : env.considerCoins mapDependers tx before = .ok after) : Measured env after := by
  obtain ⟨nValueOut, -, considers⟩ := bind_eq_ok.mp considers
  dsimp only at considers
  split_ifs at considers with many
  · cases considers
    exact measured
  · split at considers
    · cases considers
      exact measured
    · cases considers
      exact measured
    · cases considers
    · split at considers
      · cases considers
      · rename_i updates
        exact measured.addTx own fits has (Nat.lt_of_not_le many) updates considers

theorem consider {priority : TxPriority} (own : env.pool.Holds priority.ptx)
    (considers : env.consider mapDependers priority before = .ok after) : Measured env after := by
  unfold MinerEnv.consider at considers
  dsimp only at considers
  split_ifs at considers with large
  · cases considers
    exact measured
  · cases considers
    exact measured
  · cases considers
    exact measured
  · have sorted := measured.resort priority
    have fits : (env.resort priority before).nBlockSize + priority.ptx.serializeSize <
        env.nBlockMaxSize := by
      have same : (env.resort priority before).nBlockSize = before.nBlockSize := by
        unfold MinerEnv.resort
        split_ifs
        · rfl
        · rfl
      rw [same]
      exact Nat.lt_of_not_le large
    generalize env.resort priority before = next at sorted fits considers
    unfold MinerEnv.considerInputs at considers
    split_ifs at considers with lacks
    · cases considers
      exact sorted
    · obtain ⟨⟨fDoubleSerial, vTxSerials⟩, -, considers⟩ := bind_eq_ok.mp considers
      have seen : Measured env { next with vTxSerials := vTxSerials } :=
        sorted.requeue rfl sorted.entered
      cases fDoubleSerial with
      | true =>
        cases considers
        exact seen
      | false => exact seen.considerCoins own fits (by simpa using lacks) considers

theorem selectLoop {rounds : ℕ}
    (loops : env.selectLoop mapDependers rounds before = some (.ok after)) :
    Measured env after := by
  induction rounds generalizing before with
  | zero =>
    cases heap : before.vecPriority with
    | nil =>
      rw [MinerEnv.selectLoop_of_empty heap] at loops
      cases loops
      exact measured
    | cons first rest =>
      unfold MinerEnv.selectLoop at loops
      rw [heap] at loops
      cases loops
  | succ rounds ih =>
    cases heap : before.vecPriority with
    | nil =>
      rw [MinerEnv.selectLoop_of_empty heap] at loops
      cases loops
      exact measured
    | cons first rest =>
      obtain ⟨own, popped⟩ := measured.pop heap
      unfold MinerEnv.selectLoop at loops
      rw [heap] at loops popped
      dsimp only at loops
      split at loops
      · cases loops
      · rename_i next considers
        exact ih (popped.consider own considers) loops

end

end Measured

theorem measured_of_selectedTransactions {env : MinerEnv} {vtx : List CTransaction}
    (selected : env.selectedTransactions = some vtx) :
    ∃ selection, selection.vtx = vtx ∧ Measured env selection := by
  unfold MinerEnv.selectedTransactions at selected
  split at selected
  · rename_i selection selects
    cases selected
    refine ⟨selection, rfl, ?_⟩
    unfold MinerEnv.selectTransactions at selects
    split at selects
    · cases selects
    · rename_i candidates gathers
      have entered := Candidates.entered_gather gathers
      have start : Measured env (env.startSelection candidates) := by
        have few : 100 < maxBlockSigOps := by decide
        refine ⟨entered.rearrange fun priority mem => .inl ?_, nofun, rfl, .inl rfl, rfl, few,
          .nothing⟩
        exact (env.heap.makeHeap_perm _ _).mem_iff.mp mem
      exact start.selectLoop selects
  · cases selected

end DogeCash
