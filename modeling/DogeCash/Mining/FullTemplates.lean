import DogeCash.Mining.TemplateSigOps
import DogeCash.Wallet.StakeKept

/-! # Full templates

A pool of transactions that spend outputs of the chain, one each, is selected as a whole if it
fits. So the limits are met for every pool only if there is room for what is not selected when
the pool leaves none.
-/

namespace DogeCash

open List (append_nil length_cons length_replicate map_append map_cons map_nil map_singleton
  mem_cons_self mem_map mem_singleton nodup_cons sum_append sum_cons sum_nil sum_singleton)
open CScript (countSigOps getSigOpCount)
open CTransaction (getLegacySigOpCount isCoinBase serializeSize hash)
open TxPriority (ptx)
open MinerEnv (maxSizeFor)
open List (replicate)

def anyoneCanSpend : CCoins := { vout := [.of 1 [0x51]], nHeight := 1 }

def ident (number : ℕ) : UInt256 := BitVec.ofNat 256 number

theorem ident_inj {first second : ℕ} (small : first < 2 ^ 256) (small' : second < 2 ^ 256) :
    ident first = ident second ↔ first = second := by
  unfold ident
  rw [← BitVec.toNat_inj, BitVec.toNat_ofNat, BitVec.toNat_ofNat, Nat.mod_eq_of_lt small,
    Nat.mod_eq_of_lt small']

def filler (number : ℕ) (script : CScript) : CTransaction :=
  ⟨ident (2 * number), 1, [⟨⟨ident (2 * number + 1), 0⟩, [], 0xffffffff⟩], [.of 0 script], 0⟩

section Filler

variable {number : ℕ} {script : CScript}

theorem serializeSize_filler : (filler number script).serializeSize =
    59 + getSizeOfCompactSize script.length + script.length := by
  simp only [filler, serializeSize, CTxIn.serializeSize, CTxOut.serializeSize,
    CScript.serializeSize, CTxOut.of, List.length_singleton, List.length_nil, map_cons,
    map_nil, sum_cons, sum_nil]
  have one : getSizeOfCompactSize 1 = 1 := rfl
  have zero : getSizeOfCompactSize 0 = 1 := rfl
  omega

theorem getLegacySigOpCount_filler :
    (filler number script).getLegacySigOpCount = getSigOpCount script false := by
  simp only [filler, getLegacySigOpCount, CTxOut.of, map_cons, map_nil, sum_cons, sum_nil]
  have empty : getSigOpCount [] false = 0 := rfl
  omega

theorem isZerocoinSpend_filler : (filler number script).isZerocoinSpend = false := by
  have empty : CScript.isZerocoinSpend [] = false := rfl
  simp [filler, CTransaction.isZerocoinSpend, empty]

theorem isCoinBase_filler : (filler number script).isCoinBase = false := by
  simp [filler, isCoinBase, COutPoint.isNull]

theorem isCoinStake_filler : (filler number script).isCoinStake = false := rfl

theorem spendsCoins_filler : (filler number script).spendsCoins = true :=
  CTransaction.spendsCoins_iff.mpr ⟨isCoinBase_filler, isZerocoinSpend_filler⟩

variable {view : CoinsMap}

section

variable (unspent : view (ident (2 * number + 1)) = anyoneCanSpend)
include unspent

theorem available_filler : ∀ txin ∈ (filler number script).vin, view.Available txin.prevout := by
  intro txin mem
  rw [mem_singleton.mp mem, CoinsMap.Available, unspent]
  rfl

theorem haveInputs_filler : view.haveInputs (filler number script) = true :=
  CoinsMap.haveInputs_iff.mpr fun _ => available_filler unspent

theorem outputFor_filler : view.outputFor ⟨ident (2 * number + 1), 0⟩ = .of 1 [0x51] := by
  rw [CoinsMap.outputFor, unspent]
  rfl

theorem getP2SHSigOpCount_filler : view.getP2SHSigOpCount (filler number script) = 0 := by
  refine getP2SHSigOpCount_eq_zero fun txin mem => ?_
  rw [mem_singleton.mp mem, outputFor_filler unspent]
  rfl

theorem checkInputs_filler (nSpendHeight : Int) :
    CheckInputs.checkInputs (Node.sample .main).params (Node.sample .main).script nSpendHeight view
      .mandatory true (filler number script) = .ok () := by
  unfold CheckInputs.checkInputs
  rw [spendsCoins_filler, haveInputs_filler unspent]
  refine bind_eq_ok.mpr ⟨1, ?_, bind_eq_ok.mpr ⟨(), ?_, ?_⟩⟩
  · simp only [filler, CheckInputs.sumInputs]
    rw [unspent, outputFor_filler unspent]
    rfl
  · rfl
  · simp only [filler, CheckInputs.checkScripts, CheckInputs.scriptCheck]
    rw [outputFor_filler unspent]
    rfl

end

theorem updateCoins_filler (script : CScript)
    (unspent : view (ident (2 * number + 1)) = anyoneCanSpend)
    (nHeight : Int32) : ∃ after txundo,
      view.updateCoins (filler number script) nHeight = some (after, txundo) ∧
      ∀ txid, txid ≠ ident (2 * number) → txid ≠ ident (2 * number + 1) →
        after txid = view txid := by
  obtain ⟨after, txundo, updates⟩ := CoinsMap.updateCoins_of_available nHeight
    (fun _ => available_filler unspent)
    (fun _ => List.nodup_singleton (⟨ident (2 * number + 1), 0⟩ : COutPoint))
  refine ⟨after, txundo, updates, fun txid notOwn notSpent => ?_⟩
  obtain ⟨spent, marks, rfl⟩ := CoinsMap.updateCoins_eq_some updates
  rw [CoinsMap.addOutputs, CoinsMap.modifyCoins_of_ne spent (by exact notOwn)]
  rcases CoinsMap.markSpent_eq_some marks with ⟨-, spends⟩ | ⟨-, rfl⟩
  · obtain ⟨next, undo, later, first, remaining, -⟩ := CoinsMap.spendInputs_cons_eq_some spends
    cases remaining
    obtain ⟨coins, -, rfl⟩ := CoinsMap.spendOutput_eq_some first
    exact CoinsMap.modifyCoins_of_ne view (by exact notSpent) _
  · rfl

end Filler

def fillers : ℕ → List CScript → List CTransaction
  | _, [] => []
  | number, script :: rest => filler number script :: fillers (number + 1) rest

variable {scripts : List CScript}

theorem mem_fillers {number : ℕ} {tx : CTransaction} :
    tx ∈ fillers number scripts ↔
      ∃ index script, scripts[index]? = some script ∧ tx = filler (number + index) script := by
  induction scripts generalizing number with
  | nil => simp [fillers]
  | cons first rest ih =>
    rw [fillers, List.mem_cons, ih]
    constructor
    · rintro (rfl | ⟨index, script, slot, rfl⟩)
      · exact ⟨0, first, rfl, rfl⟩
      · exact ⟨index + 1, script, slot, by rw [Nat.add_right_comm, Nat.add_assoc]⟩
    · rintro ⟨index, script, slot, rfl⟩
      cases index with
      | zero =>
        cases slot
        exact .inl rfl
      | succ index =>
        exact .inr ⟨index, script, slot, by rw [Nat.add_right_comm, Nat.add_assoc]⟩

def fillerCoins (number count : ℕ) : CoinsMap := fun txid =>
  if txid ∈ (List.range count).map fun index => ident (2 * (number + index) + 1) then anyoneCanSpend
  else {}

def fillerPool (number : ℕ) (scripts : List CScript) : CTxMemPool :=
  (fillers number scripts).foldl
    (fun pool tx => pool.addUnchecked ⟨tx, BitVec.ofNat 64 tx.serializeSize⟩) .empty

/-- A node with these transactions in its pool, all of them with a priority delta. -/
def fillerEnv (number : ℕ) (scripts : List CScript) (blockMaxSize : Int) : MinerEnv where
  node := { Node.sample .main with txSerializeSize := serializeSize }
  pcoinsTip := fillerCoins number scripts.length
  pool := fillerPool number scripts
  heap := .sorting
  dPriority _ := 0
  mapDeltas _ := some (1, 0)
  minRelayTxFee := 10000
  blockMaxSize := blockMaxSize
  blockPrioritySize := 50000
  blockMinSize := 0

/-! ## The pool is gathered -/

theorem transactions_foldl_addUnchecked {txs : List CTransaction} (pool : CTxMemPool)
    (distinct : (txs.map hash).Nodup)
    (new : ∀ tx ∈ txs, tx.hash ∉ pool.mapTx) (size : CTransaction → BitVec 64) :
    ((txs.foldl (fun pool tx => pool.addUnchecked ⟨tx, size tx⟩) pool).mapTx.entries.map
      fun entry => entry.2.tx).Perm (txs ++ pool.mapTx.entries.map fun entry => entry.2.tx) := by
  induction txs generalizing pool with
  | nil => exact .refl _
  | cons tx rest ih =>
    obtain ⟨notLater, distinct⟩ := nodup_cons.mp distinct
    obtain ⟨notBefore, others⟩ := List.forall_mem_cons.mp new
    refine (ih _ distinct fun other mem inside => ?_).trans ?_
    · rcases (AList.mem_insert _).mp inside with same | old
      · exact notLater (mem_map.mpr ⟨other, mem, same⟩)
      · exact others other mem old
    · have entries : (pool.addUnchecked ⟨tx, size tx⟩).mapTx.entries =
          ⟨tx.hash, ⟨tx, size tx⟩⟩ :: pool.mapTx.entries :=
        AList.entries_insert_of_notMem notBefore
      rw [entries]
      exact List.perm_middle

section Filling

variable {number : ℕ} {scripts : List CScript} {blockMaxSize : Int}

theorem nodup_fillers (small : 2 * (number + scripts.length) < 2 ^ 256) :
    ((fillers number scripts).map hash).Nodup := by
  induction scripts generalizing number with
  | nil => exact List.nodup_nil
  | cons script rest ih =>
    rw [length_cons] at small
    rw [fillers, map_cons, nodup_cons]
    refine ⟨fun mem => ?_, ih (by omega)⟩
    obtain ⟨tx, inside, same⟩ := mem_map.mp mem
    obtain ⟨index, other, slot, rfl⟩ := mem_fillers.mp inside
    have below := (List.getElem?_eq_some_iff.mp slot).1
    have equal := (ident_inj (by omega) (by omega)).mp same
    omega

theorem poolTransactions_fillerEnv (blockMaxSize : Int)
    (small : 2 * (number + scripts.length) < 2 ^ 256) :
    (fillerEnv number scripts blockMaxSize).poolTransactions.Perm (fillers number scripts) := by
  have perm := transactions_foldl_addUnchecked .empty (nodup_fillers small)
    (fun tx _ => AList.notMem_empty tx.hash) fun tx => BitVec.ofNat 64 tx.serializeSize
  exact perm.trans (append_nil _ ▸ .refl _)

variable {index : ℕ} {tx : CTransaction} {script : CScript}

theorem fillerCoins_of_mem (inside : index < scripts.length) :
    fillerCoins number scripts.length (ident (2 * (number + index) + 1)) = anyoneCanSpend :=
  if_pos (mem_map.mpr ⟨index, List.mem_range.mpr inside, rfl⟩)

theorem exists_filler (mem : tx ∈ fillers number scripts) :
    ∃ index script, index < scripts.length ∧ tx = filler (number + index) script := by
  obtain ⟨index, script, slot, rfl⟩ := mem_fillers.mp mem
  exact ⟨index, script, (List.getElem?_eq_some_iff.mp slot).1, rfl⟩

/-- The transactions that are ready, when none waits. -/
structure Ready (seen : List CTransaction) (candidates : Candidates) : Prop where
  dependers : candidates.mapDependers = fun _ => []
  ready : candidates.vecPriority.map ptx = seen

theorem gatherTransaction_filler (inside : index < scripts.length) {seen : List CTransaction}
    {candidates : Candidates} (ready : Ready seen candidates) :
    ∃ after, (fillerEnv number scripts blockMaxSize).gatherTransaction candidates
      (filler (number + index) script) = .ok after ∧
      Ready (seen ++ [filler (number + index) script]) after := by
  have considered : (fillerEnv number scripts blockMaxSize).passedOver
      (filler (number + index) script) = false := by
    have final : (fillerEnv number scripts blockMaxSize).node.isFinalTx
        (filler (number + index) script) (fillerEnv number scripts blockMaxSize).nHeight =
          true := by
      simp [Node.isFinalTx, filler]
    have maintenance : (fillerEnv number scripts blockMaxSize).node.isSporkActive
        .zerocoinMaintenanceMode = false := rfl
    rw [MinerEnv.passedOver, isCoinBase_filler, isCoinStake_filler, final, maintenance]
    rfl
  have unspent : (fillerEnv number scripts blockMaxSize).pcoinsTip
      (ident (2 * (number + index) + 1)) = anyoneCanSpend := fillerCoins_of_mem inside
  have gathers : (fillerEnv number scripts blockMaxSize).gatherInputs
      (filler (number + index) script) (filler (number + index) script).vin
      { candidates := candidates } = .ok { candidates := candidates, nTotalIn := 1 } := by
    rw [filler, MinerEnv.gatherInputs, ← filler, isZerocoinSpend_filler]
    rw [if_neg Bool.false_ne_true, CoinsMap.haveCoins, unspent]
    rfl
  unfold MinerEnv.gatherTransaction
  rw [considered, if_neg Bool.false_ne_true]
  refine ⟨_, bind_eq_ok.mpr ⟨_, gathers, bind_eq_ok.mpr ⟨0, rfl, rfl⟩⟩, ready.dependers, ?_⟩
  unfold MinerEnv.enter
  rw [map_append, ready.ready]
  rfl

theorem gather_fillerEnv (blockMaxSize : Int)
    (small : 2 * (number + scripts.length) < 2 ^ 256) :
    ∃ candidates, (fillerEnv number scripts blockMaxSize).gather = .ok candidates ∧
      Ready (fillerEnv number scripts blockMaxSize).poolTransactions candidates := by
  refine foldlM_performed Ready [] ?_ ⟨rfl, rfl⟩
  intro before tx after state split ready
  have mem : tx ∈ fillers number scripts := by
    refine (poolTransactions_fillerEnv blockMaxSize small).mem_iff.mp ?_
    rw [split]
    exact List.mem_append_right _ mem_cons_self
  obtain ⟨index, script, inside, rfl⟩ := exists_filler mem
  exact gatherTransaction_filler inside ready

/-! ## The pool is selected -/

/-- The loop has added some of the transactions and can add the others, of which `current` is
considered. -/
structure Filling (number : ℕ) (scripts : List CScript) (current : List CTransaction)
    (selection : Selection) : Prop where
  all : (selection.vtx ++ (current ++ selection.vecPriority.map ptx)).Perm
    (fillers number scripts)
  size : selection.nBlockSize = 1000 + (selection.vtx.map serializeSize).sum
  sigOps : selection.nBlockSigOps = 100 + (selection.vtx.map getLegacySigOpCount).sum
  unspent : ∀ index script, filler (number + index) script ∈
    current ++ selection.vecPriority.map ptx → index < scripts.length →
      selection.view (ident (2 * (number + index) + 1)) = anyoneCanSpend

namespace Filling

variable {current others : List CTransaction} {before after : Selection} {tx : CTransaction}

theorem rearrange (filling : Filling number scripts current before)
    (same : after = { before with
      vecPriority := after.vecPriority, fSortedByFee := after.fSortedByFee })
    (perm : (others ++ after.vecPriority.map ptx).Perm
      (current ++ before.vecPriority.map ptx)) :
    Filling number scripts others after := by
  obtain ⟨all, size, sigOps, unspent⟩ := filling
  rw [same] at perm ⊢
  exact ⟨(perm.append_left _).trans all, size, sigOps,
    fun index script mem => unspent index script (perm.mem_iff.mp mem)⟩

theorem pop (filling : Filling number scripts [] before) (heap : HeapOps TxPriority)
    {first : TxPriority} {rest : List TxPriority} (queue : before.vecPriority = first :: rest) :
    Filling number scripts [first.ptx] { before with
      vecPriority := heap.removeFirst (txPriorityCompare before.fSortedByFee)
        before.vecPriority } := by
  refine filling.rearrange rfl ?_
  rw [queue]
  exact ((heap.removeFirst_perm _ first rest).map ptx).cons _

theorem resort (filling : Filling number scripts current before) (env : MinerEnv)
    (priority : TxPriority) : Filling number scripts current (env.resort priority before) ∧
      (env.resort priority before).vecPriority.length = before.vecPriority.length := by
  unfold MinerEnv.resort
  split_ifs
  · have perm := env.heap.makeHeap_perm (txPriorityCompare true) before.vecPriority
    exact ⟨filling.rearrange rfl ((perm.map _).append_left _), perm.length_eq⟩
  · exact ⟨filling, rfl⟩

theorem current_le (filling : Filling number scripts [tx] before) (amount : CTransaction → ℕ) :
    (before.vtx.map amount).sum + amount tx ≤ ((fillers number scripts).map amount).sum := by
  have total := (filling.all.map amount).sum_eq
  rw [map_append, map_append, sum_append, sum_append, map_singleton, sum_singleton] at total
  omega

variable (blockMaxSize) in
theorem considerCoins (filling : Filling number scripts [tx] before)
    (small : 2 * (number + scripts.length) < 2 ^ 256)
    (few : 100 + ((fillers number scripts).map getLegacySigOpCount).sum < maxBlockSigOps) :
    ∃ after, (fillerEnv number scripts blockMaxSize).considerCoins (fun _ => []) tx before =
      .ok after ∧ Filling number scripts [] after ∧ after.vecPriority = before.vecPriority := by
  have mem : tx ∈ fillers number scripts :=
    filling.all.mem_iff.mp (List.mem_append_right _ mem_cons_self)
  obtain ⟨index, script, inside, rfl⟩ := exists_filler mem
  have unspent := filling.unspent index script mem_cons_self inside
  obtain ⟨view, txundo, updates, kept⟩ := updateCoins_filler script unspent
    (Int32.ofInt (fillerEnv number scripts blockMaxSize).nHeight)
  have nTxSigOps : (filler (number + index) script).getLegacySigOpCount +
      before.view.getP2SHSigOpCount (filler (number + index) script) =
        (filler (number + index) script).getLegacySigOpCount := by
    rw [getP2SHSigOpCount_filler unspent, Nat.add_zero]
  let added : Selection := { before with
    view := view
    vtx := before.vtx ++ [filler (number + index) script]
    vTxFees := before.vTxFees ++ [before.view.getValueIn (filler (number + index) script) - 0]
    vTxSigOps := before.vTxSigOps ++ [(filler (number + index) script).getLegacySigOpCount]
    nBlockSize := before.nBlockSize + (filler (number + index) script).serializeSize
    nBlockTx := before.nBlockTx + 1
    nBlockSigOps := before.nBlockSigOps + (filler (number + index) script).getLegacySigOpCount
    nFees := before.nFees + (before.view.getValueIn (filler (number + index) script) - 0)
    vBlockSerials := before.vBlockSerials ++ before.vTxSerials }
  refine ⟨added, bind_eq_ok.mpr ⟨0, rfl, ?_⟩, ⟨?_, ?_, ?_, ?_⟩, rfl⟩
  · have sigOps := filling.sigOps
    have room := filling.current_le getLegacySigOpCount
    have checked : CheckInputs.checkInputs (fillerEnv number scripts blockMaxSize).node.params
        (fillerEnv number scripts blockMaxSize).node.script
        (fillerEnv number scripts blockMaxSize).nHeight before.view .mandatory true
        (filler (number + index) script) = .ok () := checkInputs_filler unspent _
    rw [nTxSigOps, if_neg (by omega), checked]
    rw [updates]
    rfl
  · rw [List.append_assoc]
    exact filling.all
  · change before.nBlockSize + _ = _
    rw [map_append, sum_append, filling.size, map_singleton, sum_singleton, Nat.add_assoc]
  · change before.nBlockSigOps + _ = _
    rw [map_append, sum_append, filling.sigOps, map_singleton, sum_singleton, Nat.add_assoc]
  · intro other otherScript later below
    have distinct : ((filler (number + index) script :: before.vecPriority.map
        ptx).map hash).Nodup :=
      ((filling.all.map hash).nodup_iff.mpr (nodup_fillers small)).sublist
        ((List.sublist_append_right _ _).map hash)
    have ne : number + other ≠ number + index := by
      intro same
      refine (nodup_cons.mp distinct).1 (mem_map.mpr ⟨_, later, ?_⟩)
      rw [same]
      rfl
    refine (kept _ ?_ ?_).trans (filling.unspent other otherScript
      (List.mem_cons_of_mem _ later) below)
    · exact fun same => by have := (ident_inj (by omega) (by omega)).mp same; omega
    · exact fun same => by have := (ident_inj (by omega) (by omega)).mp same; omega

theorem consider {priority : TxPriority} (filling : Filling number scripts [priority.ptx] before)
    (small : 2 * (number + scripts.length) < 2 ^ 256)
    (fits : 1000 + ((fillers number scripts).map serializeSize).sum <
      (fillerEnv number scripts blockMaxSize).nBlockMaxSize)
    (few : 100 + ((fillers number scripts).map getLegacySigOpCount).sum < maxBlockSigOps) :
    ∃ after, (fillerEnv number scripts blockMaxSize).consider (fun _ => []) priority before =
      .ok after ∧ Filling number scripts [] after ∧
        after.vecPriority.length = before.vecPriority.length := by
  have size := filling.size
  have sigOps := filling.sigOps
  have room := filling.current_le serializeSize
  have sigOpsRoom := filling.current_le getLegacySigOpCount
  have charged : (fillerEnv number scripts blockMaxSize).skipsFree priority before = false := by
    have delta : (fillerEnv number scripts blockMaxSize).dPriorityDelta priority.ptx.hash = 1 := rfl
    have positive : decide ((1 : ℚ) ≤ 0) = false := rfl
    rw [MinerEnv.skipsFree, delta, positive, Bool.and_false]
    rfl
  unfold MinerEnv.consider
  rw [if_neg (by omega), if_neg (by omega), charged, if_neg Bool.false_ne_true]
  obtain ⟨sorted, length⟩ := filling.resort (fillerEnv number scripts blockMaxSize) priority
  rw [← length]
  generalize (fillerEnv number scripts blockMaxSize).resort priority before = next at sorted ⊢
  obtain ⟨after, adds, filled, same⟩ := sorted.considerCoins blockMaxSize small few
  refine ⟨after, ?_, filled, by rw [same]⟩
  have mem : priority.ptx ∈ fillers number scripts :=
    sorted.all.mem_iff.mp (List.mem_append_right _ mem_cons_self)
  obtain ⟨index, script, inside, own⟩ := exists_filler mem
  have has : next.view.haveInputs priority.ptx = true := by
    rw [own]
    exact haveInputs_filler (sorted.unspent index script (own ▸ mem_cons_self) inside)
  have checks : (fillerEnv number scripts blockMaxSize).checkSerials priority.ptx next =
      .ok (false, next.vTxSerials) := by
    rw [MinerEnv.checkSerials, own, isZerocoinSpend_filler]
    rfl
  unfold MinerEnv.considerInputs
  rw [has, checks]
  exact adds

theorem finished (filling : Filling number scripts [] before) (empty : before.vecPriority = []) :
    before.vtx.Perm (fillers number scripts) := by
  have all := filling.all
  rw [empty, map_nil, append_nil, append_nil] at all
  exact all

theorem selectLoop {rounds : ℕ} (filling : Filling number scripts [] before)
    (small : 2 * (number + scripts.length) < 2 ^ 256)
    (fits : 1000 + ((fillers number scripts).map serializeSize).sum <
      (fillerEnv number scripts blockMaxSize).nBlockMaxSize)
    (few : 100 + ((fillers number scripts).map getLegacySigOpCount).sum <
      maxBlockSigOps) (enough : before.vecPriority.length ≤ rounds) :
    ∃ after, (fillerEnv number scripts blockMaxSize).selectLoop (fun _ => []) rounds before =
      some (.ok after) ∧ after.vtx.Perm (fillers number scripts) := by
  induction rounds generalizing before with
  | zero =>
    have empty := List.length_eq_zero_iff.mp (Nat.le_zero.mp enough)
    exact ⟨before, MinerEnv.selectLoop_of_empty empty, filling.finished empty⟩
  | succ rounds ih =>
    cases queue : before.vecPriority with
    | nil => exact ⟨before, MinerEnv.selectLoop_of_empty queue, filling.finished queue⟩
    | cons first rest =>
      obtain ⟨next, considers, filled, length⟩ :=
        (filling.pop (fillerEnv number scripts blockMaxSize).heap queue).consider
          small fits few
      have fewer : next.vecPriority.length ≤ rounds := by
        rw [length]
        rw [queue, ((fillerEnv number scripts blockMaxSize).heap.removeFirst_perm _ first
          rest).length_eq]
        rw [queue, length_cons] at enough
        omega
      obtain ⟨after, loops, all⟩ := ih filled fewer
      exact ⟨after, (MinerEnv.selectLoop_of_ok queue considers).trans loops, all⟩

end Filling

variable (blockMaxSize) in
/-- **A pool that fits is selected as a whole.** -/
theorem selectedTransactions_fillerEnv (small : 2 * (number + scripts.length) < 2 ^ 256)
    (fits : 1000 + ((fillers number scripts).map serializeSize).sum <
      (fillerEnv number scripts blockMaxSize).nBlockMaxSize)
    (few : 100 + ((fillers number scripts).map getLegacySigOpCount).sum < maxBlockSigOps) :
    ∃ vtx, (fillerEnv number scripts blockMaxSize).selectedTransactions = some vtx ∧
      vtx.Perm (fillers number scripts) := by
  obtain ⟨candidates, gathers, ready⟩ := gather_fillerEnv blockMaxSize small
  have perm := poolTransactions_fillerEnv blockMaxSize small
  have queue : (((fillerEnv number scripts blockMaxSize).startSelection candidates).vecPriority.map
      ptx).Perm (fillerEnv number scripts blockMaxSize).poolTransactions := by
    rw [← ready.ready]
    exact ((fillerEnv number scripts blockMaxSize).heap.makeHeap_perm _ _).map ptx
  have start : Filling number scripts []
      ((fillerEnv number scripts blockMaxSize).startSelection candidates) :=
    ⟨queue.trans perm, rfl, rfl, fun index script _ inside => fillerCoins_of_mem inside⟩
  have enough := queue.length_eq
  rw [List.length_map] at enough
  obtain ⟨after, loops, all⟩ := start.selectLoop small fits few enough.le
  refine ⟨after.vtx, ?_, all⟩
  rw [MinerEnv.selectedTransactions, MinerEnv.selectTransactions, gathers]
  dsimp only
  rw [ready.dependers, loops]

/-! ## The pool suits a block -/

def Long (script : CScript) : Prop := 253 ≤ script.length ∧ script.length ≤ 0xffff

theorem checkTransaction_filler (long : Long script) (index : ℕ) :
    (fillerEnv number scripts blockMaxSize).node.checkTransaction (filler index script) false false
      true = .ok () := by
  obtain ⟨low, high⟩ := long
  have nonempty : script.isEmpty = false := by
    cases script with
    | nil => cases low
    | cons first rest => rfl
  have notColdStake : CScript.isPayToColdStaking script = false := by
    have length : (script.length == 51) = false := beq_eq_false_iff_ne.mpr (by omega)
    rw [CScript.isPayToColdStaking, length]
    rfl
  have size : (filler index script).serializeSize ≤ maxZerocoinTxSize := by
    have small : getSizeOfCompactSize script.length ≤ 3 :=
      BlockFrame.getSizeOfCompactSize_le high le_rfl
    rw [serializeSize_filler]
    unfold maxZerocoinTxSize
    omega
  have out : (fillerEnv number scripts blockMaxSize).node.checkTxOut (filler index script) false
      true 0 (.of 0 script) = .ok 0 := by
    refine require_bind_eq_ok.mpr ⟨?_, ?_⟩
    · rw [CTxOut.isEmpty, CTxOut.of, nonempty, Bool.and_false]
      rfl
    · refine require_bind_eq_ok.mpr ⟨rfl, require_bind_eq_ok.mpr ⟨rfl,
        require_bind_eq_ok.mpr ⟨rfl, ?_⟩⟩⟩
      simp only [CTxOut.of, notColdStake]
      rfl
  refine require_bind_eq_ok.mpr ⟨rfl, require_bind_eq_ok.mpr ⟨rfl, require_bind_eq_ok.mpr
    ⟨decide_eq_true size, bind_eq_ok.mpr ⟨0, ?_, require_bind_eq_ok.mpr ⟨rfl, ?_⟩⟩⟩⟩⟩
  · exact foldlM_cons_eq_ok.mpr ⟨0, out, rfl⟩
  · rw [isCoinBase_filler]
    refine bind_eq_ok.mpr ⟨(), rfl, ?_⟩
    exact require_eq_ok.mpr (by simp [filler])

def Avoids (number count : ℕ) (first second : UInt256) : Prop :=
  ∀ index < 2 * count, ident (2 * number + index) ≠ first ∧ ident (2 * number + index) ≠ second

theorem exists_avoids (count : ℕ) (small : count ≤ 1000) (first second : UInt256) :
    ∃ number ≤ 2000, Avoids number count first second := by
  have apart : ∀ {number : ℕ} {id : UInt256}, number ≤ 2000 →
      ¬(2 * number ≤ id.toNat ∧ id.toNat < 2 * number + 2000) →
        ∀ index < 2 * count, ident (2 * number + index) ≠ id := by
    rintro number id le outside index below rfl
    rw [ident, BitVec.toNat_ofNat, Nat.mod_eq_of_lt (by omega)] at outside
    omega
  by_cases low : (0 ≤ first.toNat ∧ first.toNat < 2000) ∨ (0 ≤ second.toNat ∧ second.toNat < 2000)
  · by_cases middle : (2000 ≤ first.toNat ∧ first.toNat < 4000) ∨
        (2000 ≤ second.toNat ∧ second.toNat < 4000)
    · exact ⟨2000, le_rfl, fun index below => ⟨apart le_rfl (by omega) index below,
        apart le_rfl (by omega) index below⟩⟩
    · exact ⟨1000, by omega, fun index below => ⟨apart (by omega) (by omega) index below,
        apart (by omega) (by omega) index below⟩⟩
  · exact ⟨0, by omega, fun index below => ⟨apart (by omega) (by omega) index below,
      apart (by omega) (by omega) index below⟩⟩

theorem isPayToScriptHash_fillerCoins (out : COutPoint) :
    CScript.isPayToScriptHash
      ((fillerCoins number scripts.length).outputFor out).scriptPubKey = false := by
  rw [CoinsMap.outputFor, fillerCoins]
  split_ifs
  · cases out.n.toNat with
    | zero => rfl
    | succ position => rfl
  · rfl

theorem holds_fillerEnv (small : 2 * (number + scripts.length) < 2 ^ 256)
    (holds : (fillerEnv number scripts blockMaxSize).pool.Holds tx) :
    ∃ index script, index < scripts.length ∧ script ∈ scripts ∧
      tx = filler (number + index) script := by
  obtain ⟨entry, present, rfl⟩ := holds.exists_entry
  have mem : entry.tx ∈ (fillerEnv number scripts blockMaxSize).poolTransactions :=
    mem_map.mpr ⟨⟨_, entry⟩, AList.mem_lookup_iff.mp present, rfl⟩
  obtain ⟨index, script, slot, own⟩ :=
    mem_fillers.mp ((poolTransactions_fillerEnv blockMaxSize small).mem_iff.mp mem)
  exact ⟨index, script, (List.getElem?_eq_some_iff.mp slot).1, List.mem_of_getElem? slot, own⟩

theorem suits_fillerEnv (frame : BlockFrame) (small : 2 * (number + scripts.length) < 2 ^ 256)
    (long : ∀ script ∈ scripts, Long script)
    (avoids : Avoids number scripts.length frame.coinbase.hash frame.coinstake.hash) :
    (fillerEnv number scripts blockMaxSize).Suits frame := by
  have ne : ∀ tx ∈ [frame.coinbase, frame.coinstake], ∀ index < 2 * scripts.length,
      ident (2 * number + index) ≠ tx.hash := by
    intro tx mem index below
    rcases List.mem_pair.mp mem with rfl | rfl
    · exact (avoids index below).1
    · exact (avoids index below).2
  refine ⟨fun txid => ?_, fun tx holds => ?_, fun txin _ => isPayToScriptHash_fillerCoins _,
    fun tx mem => ?_, fun tx mem other holds => ?_⟩
  · change CCoins.WellFormed (fillerCoins number scripts.length txid)
    unfold fillerCoins
    split_ifs
    · refine ⟨fun out mem null => ?_, rfl⟩
      rw [mem_singleton.mp mem] at null
      cases null
    · exact CCoins.default_wellFormed
  · obtain ⟨index, script, -, listed, rfl⟩ := holds_fillerEnv small holds
    exact ⟨false, false, true, checkTransaction_filler (long script listed) _⟩
  · change (fillerCoins number scripts.length tx.hash).isPruned = true
    unfold fillerCoins
    rw [if_neg]
    · rfl
    · intro own
      obtain ⟨index, inside, same⟩ := mem_map.mp own
      have below := List.mem_range.mp inside
      refine ne tx mem (2 * index + 1) (by omega) ?_
      rw [← same]
      congr 1
      omega
  · obtain ⟨index, script, inside, -, rfl⟩ := holds_fillerEnv small holds
    intro same
    refine ne tx mem (2 * index) (by omega) ?_
    rw [← same, filler]
    congr 1
    omega

end Filling

/-! ## Scripts of a given size and with given signature operations -/

section Scripts

variable {number : ℕ} {scripts : List CScript}

theorem length_fillers : (fillers number scripts).length = scripts.length := by
  induction scripts generalizing number with
  | nil => rfl
  | cons script rest ih => rw [fillers, length_cons, length_cons, ih]

theorem sum_fillers {amount : CTransaction → ℕ} {perScript : CScript → ℕ}
    (each : ∀ index script, amount (filler index script) = perScript script) :
    ((fillers number scripts).map amount).sum = (scripts.map perScript).sum := by
  induction scripts generalizing number with
  | nil => rfl
  | cons script rest ih =>
    rw [fillers, map_cons, map_cons, sum_cons, sum_cons, each, ih]

theorem getSigOpCount_replicate {opcode : UInt8} {each : ℕ}
    (counts : ∀ fuel lastOpcode rest, countSigOps false (fuel + 1) lastOpcode
      (opcode :: rest) = each + countSigOps false fuel opcode rest) (count : ℕ) :
    getSigOpCount (replicate count opcode) false = count * each := by
  have loop : ∀ lastOpcode, countSigOps false count lastOpcode
      (replicate count opcode) = count * each := by
    induction count with
    | zero => exact fun _ => (Nat.zero_mul each).symm
    | succ count ih =>
      intro lastOpcode
      rw [List.replicate_succ, counts, ih, Nat.succ_mul, Nat.add_comm]
  rw [getSigOpCount, length_replicate]
  exact loop 0xff

/-- The scripts that fill up a block. -/
structure Fills (scripts : List CScript) (size nSigOps : ℕ) : Prop where
  few : scripts.length ≤ 1000
  long : ∀ script ∈ scripts, Long script
  size : (scripts.map fun script => 62 + script.length).sum = size
  sigOps : (scripts.map fun script => getSigOpCount script false).sum = nSigOps

theorem fills_replicate (opcode : UInt8) (count share last each : ℕ)
    (counts : ∀ fuel lastOpcode rest, countSigOps false (fuel + 1) lastOpcode
      (opcode :: rest) = each + countSigOps false fuel opcode rest) (few : count < 1000)
    (shared : 253 ≤ share ∧ share ≤ 0xffff) (rest : 253 ≤ last ∧ last ≤ 0xffff) :
    Fills (replicate count (replicate share opcode) ++ [replicate last opcode])
      (count * (62 + share) + (62 + last)) (count * (share * each) + last * each) where
  few := by
    rw [List.length_append, length_replicate, List.length_singleton]
    exact few
  long script mem := by
    rcases List.mem_append.mp mem with among | final
    · rw [(List.mem_replicate.mp among).2, Long, length_replicate]
      exact shared
    · rw [mem_singleton.mp final, Long, length_replicate]
      exact rest
  size := by
    rw [map_append, List.map_replicate, sum_append, List.sum_replicate, map_singleton,
      sum_singleton, length_replicate, length_replicate, nsmul_eq_mul, Nat.cast_id]
  sigOps := by
    rw [map_append, List.map_replicate, sum_append, List.sum_replicate,
      map_singleton, sum_singleton, getSigOpCount_replicate counts,
      getSigOpCount_replicate counts, nsmul_eq_mul, Nat.cast_id]

theorem exists_fills (total : ℕ) (low : 95000 ≤ total) (high : total ≤ 2000000) :
    ∃ scripts, Fills scripts total 0 ∧ scripts.length = 300 := by
  obtain ⟨share, last, adds, shared, rest⟩ : ∃ share last, 299 * (62 + share) + (62 + last) =
      total ∧ (253 ≤ share ∧ share ≤ 0xffff) ∧ 253 ≤ last ∧ last ≤ 0xffff :=
    ⟨(total - 18600) / 300, (total - 18600) / 300 + (total - 18600) % 300, by omega, by omega,
      by omega⟩
  have fills := fills_replicate 0x51 299 share last 0 (fun _ _ _ => rfl) (by decide) shared rest
  rw [adds, Nat.mul_zero, Nat.mul_zero, Nat.mul_zero] at fills
  exact ⟨_, fills, by rw [List.length_append, length_replicate, List.length_singleton]⟩

theorem fills_checkSig : ∃ scripts, Fills scripts 44147 43899 :=
  ⟨_, fills_replicate 0xac 3 10975 10974 1 (fun _ _ _ => rfl) (by decide) (by decide) (by decide)⟩

end Scripts

/-! ## The limits are met for every pool -/

theorem exists_full (frame : BlockFrame) (blockMaxSize : Int) {size nSigOps : ℕ}
    (fills : Fills scripts size nSigOps) (fits : 1000 + size < maxSizeFor blockMaxSize)
    (few : 100 + nSigOps < maxBlockSigOps) :
    ∃ env : MinerEnv, env.blockMaxSize = blockMaxSize ∧ env.Suits frame ∧ ∃ vtx,
      env.selectedTransactions = some vtx ∧ vtx.length = scripts.length ∧
      (vtx.map serializeSize).sum = size ∧
      (vtx.map getLegacySigOpCount).sum = nSigOps := by
  obtain ⟨number, le, avoids⟩ :=
    exists_avoids scripts.length fills.few frame.coinbase.hash frame.coinstake.hash
  have small : 2 * (number + scripts.length) < 2 ^ 256 := by
    have := fills.few
    omega
  have sizeIs : ((fillers number scripts).map serializeSize).sum = size := by
    rw [sum_fillers fun _ _ => serializeSize_filler, ← fills.size]
    refine congrArg List.sum (List.map_congr_left fun script mem => ?_)
    obtain ⟨low, high⟩ := fills.long script mem
    rw [getSizeOfCompactSize, if_neg (by omega), if_pos high]
  have sigOpsIs : ((fillers number scripts).map getLegacySigOpCount).sum = nSigOps := by
    rw [sum_fillers fun _ _ => getLegacySigOpCount_filler, ← fills.sigOps]
  obtain ⟨vtx, selected, perm⟩ := selectedTransactions_fillerEnv blockMaxSize small
    (by rw [sizeIs]; exact fits) (by rw [sigOpsIs]; exact few)
  exact ⟨fillerEnv number scripts blockMaxSize, rfl, suits_fillerEnv frame small fills.long avoids,
    vtx, selected, perm.length_eq.trans length_fillers, (perm.map _).sum_eq.trans sizeIs,
    (perm.map _).sum_eq.trans sigOpsIs⟩

theorem exists_oversize (frame : BlockFrame) (blockMaxSize : Int)
    (large : 2000998 < frame.overhead + maxSizeFor blockMaxSize) :
    ∃ env : MinerEnv, env.blockMaxSize = blockMaxSize ∧ env.Suits frame ∧
      ¬env.WithinSize frame := by
  have overhead := frame.overhead_le
  have bounded : maxSizeFor blockMaxSize ≤ 1999000 := by
    unfold maxSizeFor maxBlockSizeCurrent
    omega
  have few : 100 + 0 < maxBlockSigOps := by decide
  obtain ⟨scripts, fills, count⟩ :=
    exists_fills (maxSizeFor blockMaxSize - 1001) (by omega) (by omega)
  obtain ⟨env, same, suits, vtx, selected, length, size, -⟩ :=
    exists_full frame blockMaxSize fills (by omega) few
  refine ⟨env, same, suits, fun within => ?_⟩
  have block := within vtx selected
  rw [frame.serializeSize_eq, size, length, count] at block
  change frame.overhead + 3 + _ ≤ 2000000 at block
  omega

theorem exists_tooManySigOps (frame : BlockFrame) (blockMaxSize : Int)
    (room : 50000 ≤ maxSizeFor blockMaxSize) (many : 101 < frame.nSigOps) :
    ∃ env : MinerEnv, env.blockMaxSize = blockMaxSize ∧ env.Suits frame ∧
      ¬env.WithinSigOps frame := by
  obtain ⟨scripts, fills⟩ := fills_checkSig
  have few : 100 + 43899 < maxBlockSigOps := by decide
  obtain ⟨env, same, suits, vtx, selected, -, -, sigOps⟩ :=
    exists_full frame blockMaxSize fills (by omega) few
  refine ⟨env, same, suits, fun within => ?_⟩
  have block := (within vtx selected).1
  rw [BlockFrame.vtx, map_cons, map_cons, sum_cons, sum_cons, sigOps] at block
  have both : frame.coinbase.getLegacySigOpCount + frame.coinstake.getLegacySigOpCount =
      frame.nSigOps := rfl
  change _ ≤ 44000 at block
  omega

/-- **Templates within the limits.** The block is within its limits for every pool and every
`-blockmaxsize` exactly if what is not selected takes at most 1998 bytes and has at most 101
signature operations. For a given `-blockmaxsize` the size is within the limit for every pool
exactly if what is not selected fits beside the maximum size and 998 bytes. -/
theorem templates_within_iff (frame : BlockFrame) :
    ((∀ env : MinerEnv, env.Suits frame → env.WithinSize frame ∧ env.WithinSigOps frame) ↔
      frame.overhead ≤ 1998 ∧ frame.nSigOps ≤ 101) ∧
    ∀ blockMaxSize, (∀ env : MinerEnv, env.blockMaxSize = blockMaxSize → env.Suits frame →
      env.WithinSize frame) ↔ frame.overhead + maxSizeFor blockMaxSize ≤ 2000998 := by
  have size : ∀ blockMaxSize, (∀ env : MinerEnv, env.blockMaxSize = blockMaxSize →
      env.Suits frame → env.WithinSize frame) ↔
        frame.overhead + maxSizeFor blockMaxSize ≤ 2000998 := by
    intro blockMaxSize
    constructor
    · intro within
      by_contra large
      obtain ⟨env, same, suits, oversize⟩ :=
        exists_oversize frame blockMaxSize (Nat.lt_of_not_le large)
      exact oversize (within env same suits)
    · rintro fits env rfl suits
      exact withinSize_of_le suits fits
  refine ⟨⟨fun within => ⟨?_, ?_⟩, ?_⟩, size⟩
  · have fits := (size 1999000).mp fun env _ suits => (within env suits).1
    have largest : maxSizeFor 1999000 = 1999000 := rfl
    omega
  · by_contra many
    obtain ⟨env, -, suits, tooMany⟩ :=
      exists_tooManySigOps frame 750000 (by decide) (Nat.lt_of_not_le many)
    exact tooMany (within env suits).2
  · rintro ⟨fits, few⟩ env suits
    refine ⟨(size env.blockMaxSize).mpr ?_ env rfl suits, withinSigOps_of_le suits few⟩
    have bounded : maxSizeFor env.blockMaxSize ≤ 1999000 := by
      unfold maxSizeFor maxBlockSizeCurrent
      omega
    omega

/-- An output of 30000 DOGEC, locked by a public key, that is staked. -/
def splitInput : StakeInput where
  coin := .dogec (30000 * COIN) (by decide)
    (some ⟨[0x21, 0x02] ++ replicate 32 7 ++ [0xac], by decide, by decide⟩)
  interrupted := false
  kernel := true
  oversize := false
  txIn := some ⟨⟨7, 1⟩, 72 :: replicate 72 9, 0xffffffff⟩
  signed := true

/-- What is wrong with the coinstake: it is small enough for a transaction, but not for what was
counted for it. -/
def isLargeStake (stake : CTransaction) : Bool :=
  stake.isCoinStake && (stake.serializeSize ≤ maxZerocoinTxSize) &&
    (1998 < stake.serializeSize) && (101 < stake.getLegacySigOpCount)

/-- `CreateCoinStake` divides a stake of 30000 DOGEC, with a threshold of 50, into 488 outputs.
With them the block becomes too large for the largest `-blockmaxsize`, and has too many signature
operations for the default one. -/
theorem not_templates_within_sample :
    ∃ txNew input, (StakeEnv.sampleEnv 50 [splitInput]).createCoinStake = .ok (txNew, input) ∧
    ∃ frame : BlockFrame, frame.coinstake = txNew.toTransaction 21 ∧
      (∃ env : MinerEnv, env.blockMaxSize = 1999000 ∧ env.Suits frame ∧ ¬env.WithinSize frame) ∧
      ∃ env : MinerEnv, env.blockMaxSize = 750000 ∧ env.Suits frame ∧ ¬env.WithinSigOps frame := by
  have large : ((StakeEnv.sampleEnv 50 [splitInput]).createCoinStake.map fun created =>
      isLargeStake (created.1.toTransaction 21)) = .ok true := by
    -- The loops over the outputs are not run: the lemma says what they leave.
    have counted : StakeCoin.outputCount (StakeEnv.sampleEnv 50 [splitInput]).nStakeSplitThreshold
        (30000 * COIN + (StakeEnv.sampleEnv 50 [splitInput]).nReward) = some (487 + 1) := by
      decide
    have tried := StakeEnv.tryInputs_divided rfl rfl (rfl : splitInput.coin = _) ⟨rfl, rfl, rfl⟩
      rfl (by decide) counted [] false
    rw [StakeEnv.createCoinStake]
    show (StakeEnv.tryInputs _ _ _ _ >>= _).map _ = _
    rw [tried]
    decide +kernel
  cases created : (StakeEnv.sampleEnv 50 [splitInput]).createCoinStake with
  | error stop =>
    rw [created] at large
    cases large
  | ok result =>
    rw [created] at large
    have large : isLargeStake (result.1.toTransaction 21) = true := Except.ok.inj large
    simp only [isLargeStake, Bool.and_eq_true, decide_eq_true_eq] at large
    obtain ⟨⟨⟨marked, sized⟩, size⟩, sigOps⟩ := large
    let frame : BlockFrame := ⟨7, 20, [2, 0xe9, 3, 1, 1], result.1.toTransaction 21,
      replicate 71 0, by decide, rfl, marked, sized, by decide⟩
    refine ⟨result.1, result.2, rfl, frame, rfl, ?_, ?_⟩
    · refine exists_oversize frame 1999000 ?_
      have largest : maxSizeFor 1999000 = 1999000 := rfl
      rw [largest, BlockFrame.overhead]
      dsimp only [frame]
      omega
    · refine exists_tooManySigOps frame 750000 (by decide) ?_
      rw [BlockFrame.nSigOps]
      dsimp only [frame]
      omega

end DogeCash
