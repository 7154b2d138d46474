import DogeCash.Mempool.PoolSerials
import DogeCash.Mining.Candidates

/-! # Block templates are connectable

Every round of the loop of `CreateNewBlock` takes one transaction out of those that are ready
or wait, so the loop ends, and adds it at most once. It is added only when the view has its
inputs, and what the view has it had at the start or got from a transaction that was added
before. The serials that were seen are never forgotten, so none is spent twice.
-/

namespace DogeCash

open List (append_assoc append_nil mem_append_left mem_append_right mem_cons_self mem_filter
  mem_singleton)
open CTxIn (prevout)
open TxPriority (ptx)
open CTransaction (getValueOutOrThrow spendsCoins_iff spentSerials)
open CheckInputs (checkInputs checkScripts sumInputs)

namespace CoinsMap

variable (view : CoinsMap)

/-- The view or an earlier transaction has the output. -/
def Supplies (earlier : List CTransaction) (out : COutPoint) : Prop :=
  view.Available out ∨ ∃ parent ∈ earlier, parent.hash = out.hash ∧ out.n.toNat < parent.vout.length

/-- The inputs of each transaction that is no zerocoin spend are supplied by the view and the
transactions before it. -/
def Connected : List CTransaction → List CTransaction → Prop
  | _, [] => True
  | earlier, tx :: rest =>
    (tx.isZerocoinSpend = false → ∀ txin ∈ tx.vin, view.Supplies earlier txin.prevout) ∧
      Connected (earlier ++ [tx]) rest

variable {view}

theorem Supplies.append {earlier : List CTransaction} {out : COutPoint}
    (supplies : view.Supplies earlier out) (later : List CTransaction) :
    view.Supplies (earlier ++ later) out := by
  rcases supplies with available | ⟨parent, mem, own⟩
  · exact .inl available
  · exact .inr ⟨parent, mem_append_left _ mem, own⟩

theorem connected_append {earlier vtx : List CTransaction} {tx : CTransaction}
    (connected : view.Connected earlier vtx)
    (supplied : tx.isZerocoinSpend = false → ∀ txin ∈ tx.vin,
      view.Supplies (earlier ++ vtx) txin.prevout) : view.Connected earlier (vtx ++ [tx]) := by
  induction vtx generalizing earlier with
  | nil =>
    rw [append_nil] at supplied
    exact ⟨supplied, trivial⟩
  | cons first rest ih =>
    obtain ⟨here, later⟩ := connected
    refine ⟨here, ih later ?_⟩
    rw [← List.append_cons]
    exact supplied

end CoinsMap

variable {inputs : List CTxIn} {index : ℕ}

theorem nodup_of_noDuplicateInputs {vInOutPoints : List COutPoint}
    (plain : ∀ txin ∈ inputs, CScript.isZerocoinSpend txin.scriptSig = false)
    (passed : Node.noDuplicateInputs vInOutPoints inputs = true) :
    (inputs.map prevout).Nodup ∧ List.Disjoint vInOutPoints (inputs.map prevout) := by
  induction inputs generalizing vInOutPoints with
  | nil => exact ⟨List.nodup_nil, List.disjoint_nil_right _⟩
  | cons txin rest ih =>
    obtain ⟨here, others⟩ := List.forall_mem_cons.mp plain
    rw [Node.noDuplicateInputs, here, if_neg Bool.false_ne_true, Bool.and_eq_true] at passed
    obtain ⟨new, later⟩ := passed
    obtain ⟨distinct, disjoint⟩ := ih others later
    obtain ⟨first, disjoint⟩ := List.disjoint_cons_left.mp disjoint
    refine ⟨List.nodup_cons.mpr ⟨first, distinct⟩, List.disjoint_cons_right.mpr ⟨?_, disjoint⟩⟩
    simpa using new

theorem exists_split_of_getElem? {α : Type*} {items : List α} {item : α}
    (slot : items[index]? = some item) : ∃ before after, items = before ++ item :: after ∧
      ∀ value, items.set index value = before ++ value :: after := by
  obtain ⟨inside, rfl⟩ := List.getElem?_eq_some_iff.mp slot
  refine ⟨items.take index, items.drop (index + 1), ?_, fun value => ?_⟩
  · rw [← List.drop_eq_getElem_cons inside, List.take_append_drop]
  · rw [List.set_eq_take_append_cons_drop, if_pos inside]

def Selection.pending (selection : Selection) : List CTransaction :=
  selection.vecPriority.map ptx ++ waiting selection.vOrphan

/-- What `release` may change. -/
structure Released (before after : Selection) : Prop where
  same : after = { before with vOrphan := after.vOrphan, vecPriority := after.vecPriority }
  length : after.vOrphan.length = before.vOrphan.length
  whole : ∀ cell ∈ after.vOrphan, ∃ orphan, cell = some orphan
  pending : after.pending.Perm before.pending

variable {env : MinerEnv} {mapDependers : UInt256 → List ℕ} {tx : CTransaction}

theorem Released.trans {first second third : Selection} (one : Released first second)
    (two : Released second third) : Released first third := by
  refine ⟨?_, two.length.trans one.length, two.whole, two.pending.trans one.pending⟩
  rw [two.same, one.same]

variable {selection : Selection}

theorem release_spec (hash : UInt256) (inside : index < selection.vOrphan.length)
    (whole : ∀ cell ∈ selection.vOrphan, ∃ orphan, cell = some orphan) :
    ∃ after, env.release hash selection index = .ok after ∧ Released selection after := by
  obtain ⟨orphan, own⟩ := whole _ (List.getElem_mem inside)
  have slot : selection.vOrphan[index]? = some (some orphan) := by
    rw [List.getElem?_eq_getElem inside, own]
  obtain ⟨before, after, split, sets⟩ := exists_split_of_getElem? slot
  have kept : ∀ (value : COrphan), ∀ cell ∈ selection.vOrphan.set index (some value),
      ∃ orphan, cell = some orphan := by
    intro value cell mem
    rcases List.mem_or_eq_of_mem_set mem with old | new
    · exact whole cell old
    · exact ⟨value, new⟩
  unfold MinerEnv.release
  rw [slot]
  dsimp only
  split_ifs with nothing last
  · exact ⟨selection, rfl, rfl, rfl, whole, .refl _⟩
  · refine ⟨_, rfl, rfl, List.length_set, kept _, ?_⟩
    unfold Selection.pending
    rw [sets, split, waiting_append, waiting_append, waiting_cons nothing,
      waiting_cons_of_released last, ← append_assoc, ← append_assoc]
    have pushed := (env.heap.push_perm (txPriorityCompare selection.fSortedByFee)
      selection.vecPriority ⟨orphan.dPriority, orphan.feeRate, orphan.ptx⟩).map ptx
    refine ((pushed.append_right _).append_right _).trans ?_
    exact List.perm_middle.symm
  · refine ⟨_, rfl, rfl, List.length_set, kept _, ?_⟩
    unfold Selection.pending
    rw [sets, split, waiting_append, waiting_append, waiting_cons nothing, waiting_cons last]

variable (env) in
theorem releaseAll_spec (hash : UInt256) (indices : List ℕ)
    (inside : ∀ index ∈ indices, index < selection.vOrphan.length)
    (whole : ∀ cell ∈ selection.vOrphan, ∃ orphan, cell = some orphan) :
    ∃ after, indices.foldlM (env.release hash) selection = .ok after ∧
      Released selection after := by
  refine foldlM_performed (fun _ after => Released selection after) [] ?_ ⟨rfl, rfl, whole, .refl _⟩
  intro before index rest state split released
  have below : index < state.vOrphan.length := by
    rw [released.length]
    exact inside index (split ▸ mem_append_right _ mem_cons_self)
  obtain ⟨next, releases, step⟩ := release_spec hash below released.whole
  exact ⟨next, releases, released.trans step⟩

/-- What the loop has selected, while `current` is being considered. -/
structure Selecting (env : MinerEnv) (mapDependers : UInt256 → List ℕ)
    (current : List CTransaction) (selection : Selection) : Prop where
  linked : Candidates.Linked selection.vOrphan mapDependers
  distinct : (selection.vtx ++ (current ++ selection.pending)).Nodup
  fromPool : ∀ tx ∈ selection.vtx ++ (current ++ selection.pending),
    env.pool.Holds tx ∧ env.passedOver tx = false
  coins : ∀ out, selection.view.Available out → env.pcoinsTip.Supplies selection.vtx out
  connected : env.pcoinsTip.Connected [] selection.vtx
  inputs : ∀ tx ∈ selection.vtx, tx.isZerocoinSpend = false → (tx.vin.map prevout).Nodup
  serials : (selection.vtx.flatMap
    (spentSerials env.node.zerocoin.txInToZerocoinSpend)).Sublist
      selection.vTxSerials
  distinctSerials : selection.vTxSerials.Nodup

namespace Selecting

variable {current others : List CTransaction} {before after : Selection}

theorem rearrange (selecting : Selecting env mapDependers current before)
    (same : after = { before with
      vOrphan := after.vOrphan, vecPriority := after.vecPriority
      fSortedByFee := after.fSortedByFee })
    (linked : Candidates.Linked after.vOrphan mapDependers)
    (fewer : (others ++ after.pending).Subperm (current ++ before.pending)) :
    Selecting env mapDependers others after := by
  obtain ⟨listed, perm, sublist⟩ := fewer
  have distinct : (before.vtx ++ (others ++ after.pending)).Nodup := by
    rw [← (perm.append_left before.vtx).nodup_iff]
    exact selecting.distinct.sublist (sublist.append_left before.vtx)
  have fromPool : ∀ tx ∈ before.vtx ++ (others ++ after.pending),
      env.pool.Holds tx ∧ env.passedOver tx = false := by
    intro tx mem
    refine selecting.fromPool tx ((sublist.append_left before.vtx).subset ?_)
    exact (perm.append_left before.vtx).mem_iff.mpr mem
  rw [same]
  refine ⟨linked, ?_, ?_, selecting.coins, selecting.connected, selecting.inputs,
    selecting.serials, selecting.distinctSerials⟩
  · exact distinct
  · exact fromPool

theorem skip (selecting : Selecting env mapDependers current before) :
    Selecting env mapDependers [] before :=
  selecting.rearrange rfl selecting.linked
    ⟨before.pending, .refl _, List.sublist_append_right current before.pending⟩

theorem pop (selecting : Selecting env mapDependers [] before) {first : TxPriority}
    {rest : List TxPriority} (heap : before.vecPriority = first :: rest) :
    Selecting env mapDependers [first.ptx] { before with
      vecPriority := env.heap.removeFirst (txPriorityCompare before.fSortedByFee)
        before.vecPriority } := by
  refine selecting.rearrange rfl selecting.linked (List.Perm.subperm ?_)
  unfold Selection.pending
  rw [heap]
  exact ((((env.heap.removeFirst_perm _ first rest).map ptx).append_right _).cons _)

theorem resort (selecting : Selecting env mapDependers current before) (priority : TxPriority) :
    Selecting env mapDependers current (env.resort priority before) ∧
      (env.resort priority before).pending.Perm before.pending := by
  unfold MinerEnv.resort
  split_ifs
  · have perm : List.Perm (Selection.pending { before with
        fSortedByFee := true
        vecPriority := env.heap.makeHeap (txPriorityCompare true) before.vecPriority })
        before.pending :=
      ((env.heap.makeHeap_perm _ _).map ptx).append_right _
    exact ⟨selecting.rearrange rfl selecting.linked (perm.append_left current).subperm, perm⟩
  · exact ⟨selecting, .refl _⟩

theorem sees (selecting : Selecting env mapDependers current before) {added : List Int}
    (distinct : (before.vTxSerials ++ added).Nodup) :
    Selecting env mapDependers current { before with vTxSerials := before.vTxSerials ++ added } :=
  ⟨selecting.linked, selecting.distinct, selecting.fromPool, selecting.coins, selecting.connected,
    selecting.inputs, selecting.serials.trans (List.sublist_append_left _ _), distinct⟩

end Selecting

/-! ## Serials -/

/-- The loop over the spends of a transaction collects serials that are new. -/
theorem scanSerials_spec {vBlockSerials vTxSerials : List Int}
    (decodes : ∀ txin ∈ inputs, CScript.isZerocoinSpend txin.scriptSig = true →
      ∃ spend, env.node.zerocoin.txInToZerocoinSpend txin = some spend)
    (distinct : vTxSerials.Nodup) :
    ∃ fDoubleSerial added,
      env.scanSerials vBlockSerials inputs vTxSerials = .ok (fDoubleSerial, vTxSerials ++ added) ∧
      (vTxSerials ++ added).Nodup ∧
      (fDoubleSerial = false → added =
        ((inputs.filter fun txin => CScript.isZerocoinSpend txin.scriptSig).filterMap
          env.node.zerocoin.txInToZerocoinSpend).map CoinSpend.coinSerialNumber) := by
  induction inputs generalizing vTxSerials with
  | nil =>
    refine ⟨false, [], ?_, ?_, fun _ => rfl⟩
    · rw [append_nil]
      rfl
    · rwa [append_nil]
  | cons txin rest ih =>
    obtain ⟨here, others⟩ := List.forall_mem_cons.mp decodes
    rw [List.filter_cons]
    unfold MinerEnv.scanSerials
    split_ifs with script
    · obtain ⟨spend, decoded⟩ := here script
      rw [decoded]
      dsimp only
      split_ifs with seen
      · refine ⟨true, [], ?_, ?_, nofun⟩
        · rw [append_nil]
        · rwa [append_nil]
      · have new : spend.coinSerialNumber ∉ vTxSerials := by
          intro mem
          exact seen (by simp [mem])
        have next : (vTxSerials ++ [spend.coinSerialNumber]).Nodup := by
          rw [List.nodup_append_comm, List.singleton_append, List.nodup_cons]
          exact ⟨new, distinct⟩
        obtain ⟨fDoubleSerial, added, scans, collected, all⟩ := ih others next
        rw [append_assoc] at scans collected
        refine ⟨fDoubleSerial, spend.coinSerialNumber :: added, scans, collected, ?_⟩
        intro passes
        rw [List.filterMap_cons_some decoded, List.map_cons, all passes]
    · exact ih others distinct

theorem checkSerials_spec (vetted : env.Vetted) (holds : env.pool.Holds tx)
    (distinct : selection.vTxSerials.Nodup) :
    ∃ fDoubleSerial added,
      env.checkSerials tx selection = .ok (fDoubleSerial, selection.vTxSerials ++ added) ∧
      (selection.vTxSerials ++ added).Nodup ∧
      (fDoubleSerial = false → tx.isZerocoinSpend = true → added =
        tx.spentSerials env.node.zerocoin.txInToZerocoinSpend) := by
  unfold MinerEnv.checkSerials
  split_ifs with plain inChain
  · refine ⟨false, [], ?_, ?_, fun _ spend => ?_⟩
    · rw [append_nil]
    · rwa [append_nil]
    · rw [spend] at plain
      cases plain
  · refine ⟨true, [], ?_, ?_, nofun⟩
    · rw [append_nil]
    · rwa [append_nil]
  · have decodes : ∀ txin ∈ tx.vin, CScript.isZerocoinSpend txin.scriptSig = true →
        ∃ spend, env.node.zerocoin.txInToZerocoinSpend txin = some spend :=
      fun txin mem script => vetted.decodes tx holds txin (mem_filter.mpr ⟨mem, script⟩)
    obtain ⟨fDoubleSerial, added, scans, collected, all⟩ := scanSerials_spec decodes distinct
    exact ⟨fDoubleSerial, added, scans, collected, fun passes _ => all passes⟩

/-! ## Adding a transaction -/

/-- A failure that makes `CheckInputs` return false. -/
def Failure.Refuses (failure : Failure) : Prop :=
  (∃ nDoS reason, failure = .invalid nDoS reason) ∨ ∃ nDoS error, failure = .script nDoS error

section CheckInputs

variable {params : ChainParams} {script : ScriptEnv} {nSpendHeight : Int} {view : CoinsMap}
  {flags : ScriptFlags} {failure : Failure}

variable {inputs : List CTxIn}

theorem sumInputs_error {nValueIn : Int}
    (fails : sumInputs params nSpendHeight view nValueIn inputs = .error failure) :
    failure.Refuses := by
  induction inputs generalizing nValueIn with
  | nil => cases fails
  | cons txin rest ih =>
    rw [sumInputs] at fails
    split_ifs at fails
    · cases fails
      exact .inl ⟨_, _, rfl⟩
    · cases fails
      exact .inl ⟨_, _, rfl⟩
    · exact ih fails

theorem checkFee_error {nValueIn nValueOut : Int} (inRange : tx.getValueOut = some nValueOut)
    (fails : CheckInputs.checkFee params tx nValueIn = .error failure) : failure.Refuses := by
  have computes : tx.getValueOutOrThrow = .ok nValueOut := by
    rw [getValueOutOrThrow, inRange]
  unfold CheckInputs.checkFee at fails
  split_ifs at fails
  rcases bind_eq_error.mp fails with thrown | ⟨_, -, fails⟩
  · rw [computes] at thrown
    cases thrown
  · split_ifs at fails
    · cases fails
      exact .inl ⟨_, _, rfl⟩
    · cases fails
      exact .inl ⟨_, _, rfl⟩
    · cases fails
      exact .inl ⟨_, _, rfl⟩

theorem checkScripts_error {nIn : ℕ}
    (fails : checkScripts script view flags tx nIn inputs = .error failure) :
    failure.Refuses := by
  induction inputs generalizing nIn with
  | nil => cases fails
  | cons txin rest ih =>
    rw [checkScripts] at fails
    split at fails
    · cases fails
      unfold CheckInputs.scriptFailure
      dsimp only
      split_ifs
      · exact .inr ⟨_, _, rfl⟩
      · exact .inr ⟨_, _, rfl⟩
    · exact ih fails

theorem checkInputs_error {nValueOut : Int} (inRange : tx.getValueOut = some nValueOut)
    (fails : checkInputs params script nSpendHeight view flags true tx =
      .error failure) : failure.Refuses := by
  unfold checkInputs at fails
  rw [if_pos rfl] at fails
  split_ifs at fails
  · cases fails
    exact .inl ⟨_, _, rfl⟩
  · rcases bind_eq_error.mp fails with summed | ⟨_, -, fails⟩
    · exact sumInputs_error summed
    · rcases bind_eq_error.mp fails with checked | ⟨_, -, fails⟩
      · exact checkFee_error inRange checked
      · exact checkScripts_error fails

end CheckInputs

theorem isCoinBase_of_not_passedOver {tx : CTransaction} (considered : env.passedOver tx = false) :
    tx.isCoinBase = false := by
  simp only [MinerEnv.passedOver, Bool.or_eq_false_iff] at considered
  exact considered.1.1.1

/-- A transaction with distinct inputs that the view has is added. -/
theorem Selecting.add {view : CoinsMap} {txundo : CTxUndo}
    (selecting : Selecting env mapDependers [tx] selection)
    (has : selection.view.haveInputs tx = true)
    (distinct : tx.isZerocoinSpend = false → (tx.vin.map prevout).Nodup)
    (serials : ((selection.vtx ++ [tx]).flatMap
      (spentSerials env.node.zerocoin.txInToZerocoinSpend)).Sublist
        selection.vTxSerials)
    (updates : selection.view.updateCoins tx (Int32.ofInt env.nHeight) = some (view, txundo))
    (nTxFees : Int) (nTxSigOps : ℕ) :
    ∃ after, env.addTx mapDependers tx nTxFees nTxSigOps view selection = .ok after ∧
      Selecting env mapDependers [] after ∧ after.pending.length = selection.pending.length := by
  obtain ⟨-, considered⟩ := selecting.fromPool tx
    (mem_append_right _ (mem_append_left _ mem_cons_self))
  have notCoinBase := isCoinBase_of_not_passedOver considered
  have spends : tx.isZerocoinSpend = false → tx.spendsCoins = true :=
    fun plain => spendsCoins_iff.mpr ⟨notCoinBase, plain⟩
  let added : Selection := { selection with
    view := view
    vtx := selection.vtx ++ [tx]
    vTxFees := selection.vTxFees ++ [nTxFees]
    vTxSigOps := selection.vTxSigOps ++ [nTxSigOps]
    nBlockSize := selection.nBlockSize + tx.serializeSize
    nBlockTx := selection.nBlockTx + 1
    nBlockSigOps := selection.nBlockSigOps + nTxSigOps
    nFees := selection.nFees + nTxFees
    vBlockSerials := selection.vBlockSerials ++ selection.vTxSerials }
  have middle : Selecting env mapDependers [] added := by
    refine ⟨selecting.linked, ?_, ?_, ?_, ?_, ?_, serials, selecting.distinctSerials⟩
    · rw [append_assoc]
      exact selecting.distinct
    · rw [append_assoc]
      exact selecting.fromPool
    · intro out available
      rcases CoinsMap.available_updateCoins updates available with before | own
      · exact (selecting.coins out before).append [tx]
      · exact .inr ⟨tx, mem_append_right _ mem_cons_self, own⟩
    · refine CoinsMap.connected_append selecting.connected fun plain txin mem => ?_
      exact selecting.coins _ (CoinsMap.haveInputs_iff.mp has (spends plain) txin mem)
    · intro other mem plain
      rcases List.mem_append.mp mem with before | last
      · exact selecting.inputs other before plain
      · rw [mem_singleton.mp last] at plain ⊢
        exact distinct plain
  have inside : ∀ index ∈ mapDependers tx.hash, index < added.vOrphan.length :=
    selecting.linked.inside tx.hash
  have whole : ∀ cell ∈ added.vOrphan, ∃ orphan, cell = some orphan := selecting.linked.whole
  obtain ⟨after, releases, released⟩ := releaseAll_spec env tx.hash _ inside whole
  have linked : Candidates.Linked after.vOrphan mapDependers := by
    refine ⟨released.whole, fun hash index mem => ?_⟩
    rw [released.length]
    exact selecting.linked.inside hash index mem
  refine ⟨after, releases, middle.rearrange ?_ linked released.pending.subperm,
    released.pending.length_eq⟩
  have order : after.fSortedByFee = added.fSortedByFee := by
    rw [released.same]
  rw [order]
  exact released.same

/-! ## The loop -/

theorem considerCoins_spec (vetted : env.Vetted)
    (selecting : Selecting env mapDependers [tx] selection)
    (has : selection.view.haveInputs tx = true)
    (serials : tx.isZerocoinSpend = true → ((selection.vtx ++ [tx]).flatMap
      (spentSerials env.node.zerocoin.txInToZerocoinSpend)).Sublist
        selection.vTxSerials) :
    ∃ after, env.considerCoins mapDependers tx selection = .ok after ∧
      Selecting env mapDependers [] after ∧ after.pending.length = selection.pending.length := by
  obtain ⟨holds, considered⟩ := selecting.fromPool tx
    (mem_append_right _ (mem_append_left _ mem_cons_self))
  have notCoinBase := isCoinBase_of_not_passedOver considered
  have skipped : ∃ after, (.ok selection : Except Failure Selection) = .ok after ∧
      Selecting env mapDependers [] after ∧ after.pending.length = selection.pending.length :=
    ⟨selection, rfl, selecting.skip, rfl⟩
  obtain ⟨nValueOut, inRange⟩ := vetted.inRange tx holds
  unfold MinerEnv.considerCoins
  rw [getValueOutOrThrow, inRange]
  dsimp only [bind, Except.bind]
  split_ifs with tooMany
  · exact skipped
  · cases checked : checkInputs env.node.params env.node.script env.nHeight
        selection.view .mandatory true tx with
    | error failure =>
      rcases checkInputs_error inRange checked with ⟨nDoS, -, rfl⟩ | ⟨-, -, rfl⟩
      · exact skipped
      · exact skipped
    | ok passed =>
      have plain : tx.isZerocoinSpend = false → tx.zerocoinInputs = [] := fun notSpend =>
        CheckInputs.zerocoinInputs_of_checkInputs
          (spendsCoins_iff.mpr ⟨notCoinBase, notSpend⟩) checked
      have distinct : tx.isZerocoinSpend = false → (tx.vin.map prevout).Nodup := by
        intro notSpend
        refine (nodup_of_noDuplicateInputs (fun txin mem => ?_)
          (vetted.distinct tx holds)).1
        simpa using List.filter_eq_nil_iff.mp (plain notSpend) txin mem
      have collected : ((selection.vtx ++ [tx]).flatMap
          (spentSerials env.node.zerocoin.txInToZerocoinSpend)).Sublist
            selection.vTxSerials := by
        cases kind : tx.isZerocoinSpend with
        | true => exact serials kind
        | false =>
          rw [List.flatMap_append, List.flatMap_singleton, spentSerials,
            plain kind, List.filterMap_nil, List.map_nil, append_nil]
          exact selecting.serials
      obtain ⟨view, txundo, updates⟩ := CoinsMap.updateCoins_of_available
        (Int32.ofInt env.nHeight) (CoinsMap.haveInputs_iff.mp has)
        (fun spends => distinct (spendsCoins_iff.mp spends).2)
      rw [updates]
      exact selecting.add has distinct collected updates _ _

theorem consider_spec (vetted : env.Vetted) {priority : TxPriority}
    (selecting : Selecting env mapDependers [priority.ptx] selection) :
    ∃ after, env.consider mapDependers priority selection = .ok after ∧
      Selecting env mapDependers [] after ∧ after.pending.length = selection.pending.length := by
  have skipped : ∃ after, (.ok selection : Except Failure Selection) = .ok after ∧
      Selecting env mapDependers [] after ∧ after.pending.length = selection.pending.length :=
    ⟨selection, rfl, selecting.skip, rfl⟩
  unfold MinerEnv.consider
  dsimp only
  split_ifs with tooLarge tooMany free
  · exact skipped
  · exact skipped
  · exact skipped
  · obtain ⟨sorted, perm⟩ := selecting.resort priority
    rw [← perm.length_eq]
    generalize env.resort priority selection = next at sorted ⊢
    obtain ⟨holds, -⟩ := sorted.fromPool priority.ptx
      (mem_append_right _ (mem_append_left _ mem_cons_self))
    unfold MinerEnv.considerInputs
    split_ifs with lacks
    · exact ⟨next, rfl, sorted.skip, rfl⟩
    · obtain ⟨fDoubleSerial, added, checks, distinct, all⟩ :=
        checkSerials_spec vetted holds sorted.distinctSerials
      rw [checks]
      cases fDoubleSerial with
      | true => exact ⟨_, rfl, (sorted.sees distinct).skip, rfl⟩
      | false =>
        refine considerCoins_spec vetted (sorted.sees distinct) (by simpa using lacks) ?_
        intro spend
        rw [List.flatMap_append, List.flatMap_singleton, all rfl spend]
        exact sorted.serials.append (List.Sublist.refl _)

theorem selectLoop_spec (vetted : env.Vetted) {rounds : ℕ}
    (selecting : Selecting env mapDependers [] selection)
    (enough : selection.pending.length ≤ rounds) :
    ∃ after, env.selectLoop mapDependers rounds selection = some (.ok after) ∧
      Selecting env mapDependers [] after := by
  induction rounds generalizing selection with
  | zero =>
    have empty : selection.vecPriority = [] := by
      have nothing := List.length_eq_zero_iff.mp (Nat.le_zero.mp enough)
      exact List.map_eq_nil_iff.mp (List.append_eq_nil_iff.mp nothing).1
    exact ⟨selection, MinerEnv.selectLoop_of_empty empty, selecting⟩
  | succ rounds ih =>
    cases heap : selection.vecPriority with
    | nil =>
      exact ⟨selection, MinerEnv.selectLoop_of_empty heap, selecting⟩
    | cons first rest =>
      have popped := selecting.pop heap
      obtain ⟨next, considers, kept, length⟩ := consider_spec vetted popped
      have fewer : next.pending.length ≤ rounds := by
        rw [length]
        unfold Selection.pending at enough ⊢
        rw [heap, List.length_append, List.length_map, List.length_cons] at enough
        dsimp only
        rw [List.length_append, List.length_map, heap,
          (env.heap.removeFirst_perm _ first rest).length_eq]
        omega
      obtain ⟨after, loops, ended⟩ := ih kept fewer
      exact ⟨after, (MinerEnv.selectLoop_of_ok heap considers).trans loops, ended⟩

namespace MinerEnv

/-- The transactions that can be connected one after another: they are from the pool, none is
there twice, the inputs of each are there when it comes, and no outpoint and no serial is spent
twice. -/
structure Connectable (env : MinerEnv) (vtx : List CTransaction) : Prop where
  fromPool : ∀ tx ∈ vtx, env.pool.Holds tx
  once : vtx.Nodup
  connected : env.pcoinsTip.Connected [] vtx
  outpoints : ((vtx.filter fun tx => !tx.isZerocoinSpend).flatMap fun tx =>
    tx.vin.map prevout).Nodup
  serials : (vtx.flatMap
    (spentSerials env.node.zerocoin.txInToZerocoinSpend)).Nodup

/-- **Block templates are connectable.** Where the inputs of the pool are there, the loop of
`CreateNewBlock` ends, and what it has added can be connected. -/
theorem selects_connectable (env : MinerEnv) (supplied : env.Supplied) (vetted : env.Vetted) :
    ∃ vtx, env.selectedTransactions = some vtx ∧ env.Connectable vtx := by
  obtain ⟨candidates, gathers, gathered⟩ := Candidates.gather_spec supplied vetted
  have perm : (env.startSelection candidates).pending.Perm candidates.pending :=
    ((env.heap.makeHeap_perm _ _).map ptx).append_right _
  have start : Selecting env candidates.mapDependers [] (env.startSelection candidates) := by
    refine ⟨gathered.linked, perm.nodup_iff.mpr gathered.distinct, fun tx mem => ?_,
      fun out available => .inl available, trivial, nofun, List.Sublist.refl [], List.nodup_nil⟩
    obtain ⟨seen, considered⟩ := gathered.fromSeen tx (perm.mem_iff.mp mem)
    exact ⟨holds_of_mem seen, considered⟩
  have enough : (env.startSelection candidates).pending.length ≤ env.poolTransactions.length := by
    rw [perm.length_eq]
    exact (gathered.distinct.subperm fun tx mem => (gathered.fromSeen tx mem).1).length_le
  obtain ⟨selection, loops, selected⟩ := selectLoop_spec vetted start enough
  refine ⟨selection.vtx, ?_, ?_⟩
  · rw [selectedTransactions, selectTransactions, gathers]
    dsimp only
    rw [loops]
  · have fromPool : ∀ tx ∈ selection.vtx, env.pool.Holds tx :=
      fun tx mem => (selected.fromPool tx (mem_append_left _ mem)).1
    have once := selected.distinct.of_append_left
    refine ⟨fromPool, once, selected.connected, List.nodup_flatMap.mpr ⟨?_, ?_⟩,
      selected.distinctSerials.sublist selected.serials⟩
    · intro tx mem
      obtain ⟨inside, plain⟩ := mem_filter.mp mem
      exact selected.inputs tx inside (by simpa using plain)
    · refine (once.filter _).imp_of_mem fun {first second} firstMember secondMember ne => ?_
      obtain ⟨firstInside, firstPlain⟩ := mem_filter.mp firstMember
      obtain ⟨secondInside, secondPlain⟩ := mem_filter.mp secondMember
      exact supplied.unshared first second (fromPool first firstInside)
        (fromPool second secondInside) ne (by simpa using firstPlain)
        (by simpa using secondPlain)

variable {tx : CTransaction}

variable {node : Node} {policy : MempoolPolicy} {pcoinsTip : CoinsMap} {pool after : CTxMemPool}

theorem noDuplicateInputs_of_accepts (accepts : node.Accepts pool after tx) :
    Node.noDuplicateInputs [] tx.vin = true := by
  obtain ⟨-, checked⟩ := require_bind_eq_ok.mp accepts.checked
  obtain ⟨-, checked⟩ := require_bind_eq_ok.mp checked
  obtain ⟨-, checked⟩ := require_bind_eq_ok.mp checked
  obtain ⟨_, -, checked⟩ := bind_eq_ok.mp checked
  exact (require_bind_eq_ok.mp checked).1

/-- What the pool is vetted for, `AcceptToMemoryPool` has checked when it took a transaction, as
long as `IsTransactionInChain` finds what has coins. -/
theorem vetted_of_acceptToMemoryPool (wellFormed : pcoinsTip.WellFormed)
    (found : ∀ txid, pcoinsTip.haveCoins txid = true → node.isTransactionInChain txid ≠ none)
    (ok : node.acceptToMemoryPool policy pcoinsTip pool tx = .ok after) :
    Node.noDuplicateInputs [] tx.vin = true ∧ (∃ nValueOut, tx.getValueOut = some nValueOut) ∧
      (∀ txin ∈ tx.zerocoinInputs, ∃ spend, node.zerocoin.txInToZerocoinSpend txin = some spend) ∧
      pcoinsTip.haveCoins tx.hash = false := by
  have accepts := Node.accepts_of_acceptToMemoryPool ok
  have new : pool.mapTx.lookup tx.hash = none :=
    Option.isNone_iff_eq_none.mp (Bool.and_eq_true_iff.mp accepts.acceptable).1
  obtain ⟨⟨⟩, -, ok⟩ := bind_eq_ok.mp ok
  obtain ⟨⟨⟩, kind, ok⟩ := bind_eq_ok.mp ok
  obtain ⟨⟨⟩, coins, -⟩ := bind_eq_ok.mp ok
  refine ⟨noDuplicateInputs_of_accepts accepts, ?_, ?_, ?_⟩
  · obtain ⟨-, coins⟩ := require_bind_eq_ok.mp coins
    obtain ⟨-, coins⟩ := require_bind_eq_ok.mp coins
    obtain ⟨nValueOut, computed, -⟩ := bind_eq_ok.mp coins
    unfold getValueOutOrThrow at computed
    split at computed
    · exact ⟨_, ‹_›⟩
    · cases computed
  · cases kind : tx.isZerocoinSpend with
    | true =>
      intro txin mem
      obtain ⟨spend, decodes, -⟩ := accepts.unspent kind txin mem
      exact ⟨spend, decodes⟩
    | false =>
      rw [accepts.others kind]
      nofun
  · unfold Node.acceptKind at kind
    split_ifs at kind
    · obtain ⟨unknown, -⟩ := require_bind_eq_ok.mp kind
      exact Bool.eq_false_iff.mpr fun known =>
        found _ known (Option.isNone_iff_eq_none.mp unknown)
    · obtain ⟨unknown, -⟩ := require_bind_eq_ok.mp kind
      rw [Bool.not_eq_true', CoinsMap.haveCoins, CTxMemPool.view, new] at unknown
      rw [CoinsMap.haveCoins]
      split_ifs at unknown with pruned
      · have clean := (wellFormed tx.hash).cleanup_eq
        rw [← CCoins.isPruned_eq_isEmpty_of_clean clean, pruned]
        rfl
      · exact unknown

/-- **The miner's pool is vetted** when every transaction in it was accepted. -/
theorem vetted_of_accepted {env : MinerEnv} (wellFormed : env.pcoinsTip.WellFormed)
    (found : ∀ txid, env.pcoinsTip.haveCoins txid = true →
      env.node.isTransactionInChain txid ≠ none)
    (accepted : ∀ tx, env.pool.Holds tx → ∃ policy pool after,
      env.node.acceptToMemoryPool policy env.pcoinsTip pool tx = .ok after) : env.Vetted := by
  choose policy pool after ok using accepted
  have each := fun tx holds => vetted_of_acceptToMemoryPool wellFormed found (ok tx holds)
  exact ⟨fun tx holds => (each tx holds).1, fun tx holds => (each tx holds).2.1,
    fun tx holds => (each tx holds).2.2.1, fun tx holds => (each tx holds).2.2.2⟩

/-- The transactions of the pool in the order in which they arrived, and how they follow one
another: each spends what the view has or an earlier one has made, and no outpoint is spent
twice. -/
structure Arrived (pcoinsTip : CoinsMap) (pool : CTxMemPool) (arrived : List CTransaction) :
    Prop where
  holds : ∀ tx, pool.Holds tx ↔ tx ∈ arrived
  once : arrived.Nodup
  connected : pcoinsTip.Connected [] arrived
  outpoints : ((arrived.filter fun tx => !tx.isZerocoinSpend).flatMap fun tx =>
    tx.vin.map prevout).Nodup

variable {arrived : List CTransaction}

theorem supplies_of_available_view {out : COutPoint} (holds : ∀ tx, pool.Holds tx ↔ tx ∈ arrived)
    (available : (pool.view pcoinsTip).Available out) : pcoinsTip.Supplies arrived out := by
  rw [CoinsMap.Available, CTxMemPool.view] at available
  cases present : pool.mapTx.lookup out.hash with
  | some entry =>
    rw [present] at available
    exact .inr ⟨entry.tx, (holds _).mp (CTxMemPool.holds_of_lookup present),
      pool.keyed _ _ present, CCoins.lt_of_isAvailable_fromTx available⟩
  | none =>
    rw [present] at available
    split_ifs at available
    · cases available
    · exact .inl available

theorem prevouts_of_accepts (accepts : node.Accepts pool after tx)
    (plain : tx.isZerocoinSpend = false) : (tx.vin.map prevout).Nodup := by
  refine (nodup_of_noDuplicateInputs (fun txin mem => ?_)
    (noDuplicateInputs_of_accepts accepts)).1
  exact Bool.eq_false_iff.mpr (List.filter_eq_nil_iff.mp (accepts.others plain) txin mem)

theorem available_of_acceptToMemoryPool (plain : tx.isZerocoinSpend = false)
    (ok : node.acceptToMemoryPool policy pcoinsTip pool tx = .ok after) :
    ∀ txin ∈ tx.vin, (pool.view pcoinsTip).Available txin.prevout := by
  obtain ⟨⟨⟩, loose, ok⟩ := bind_eq_ok.mp ok
  obtain ⟨⟨⟩, kind, -⟩ := bind_eq_ok.mp ok
  obtain ⟨-, loose⟩ := require_bind_eq_ok.mp loose
  obtain ⟨⟨⟩, -, loose⟩ := bind_eq_ok.mp loose
  have notCoinBase := (require_bind_eq_ok.mp loose).1
  rw [Node.acceptKind, plain, if_neg Bool.false_ne_true, if_neg Bool.false_ne_true] at kind
  obtain ⟨-, kind⟩ := require_bind_eq_ok.mp kind
  obtain ⟨_, -, kind⟩ := bind_eq_ok.mp kind
  obtain ⟨_, -, kind⟩ := bind_eq_ok.mp kind
  exact CoinsMap.haveInputs_iff.mp (require_eq_ok.mp kind)
    (spendsCoins_iff.mpr ⟨by simpa using notCoinBase, plain⟩)

/-- **One arrival.** `mapNextTx` is exact, so that a transaction that is taken shares no outpoint
with those before it. -/
theorem Arrived.accept (order : Arrived pcoinsTip pool arrived) (consistent : pool.Consistent)
    (ok : node.acceptToMemoryPool policy pcoinsTip pool tx = .ok after) :
    Arrived pcoinsTip after (arrived ++ [tx]) ∧ after.Consistent := by
  have accepts := Node.accepts_of_acceptToMemoryPool ok
  obtain ⟨new, free⟩ := Bool.and_eq_true_iff.mp accepts.acceptable
  have new : pool.mapTx.lookup tx.hash = none := Option.isNone_iff_eq_none.mp new
  have distinct := prevouts_of_accepts accepts
  rw [accepts.added]
  refine ⟨⟨fun other => ?_, ?_, ?_, ?_⟩, consistent.addUnchecked accepts.acceptable distinct⟩
  · rw [CTxMemPool.holds_addUnchecked new, order.holds, List.mem_append, mem_singleton, or_comm]
  · refine order.once.append (List.nodup_singleton tx) (List.disjoint_singleton.mpr fun mem => ?_)
    have held := (order.holds tx).mpr mem
    rw [CTxMemPool.Holds, new] at held
    cases held
  · exact CoinsMap.connected_append order.connected fun plain txin mem =>
      supplies_of_available_view order.holds
        (available_of_acceptToMemoryPool plain ok txin mem)
  · rw [List.filter_append, List.flatMap_append]
    cases plain : tx.isZerocoinSpend with
    | true => simpa [plain] using order.outpoints
    | false =>
      rw [plain, Bool.false_or, List.all_eq_true] at free
      simp only [List.filter_cons, plain, Bool.not_false, if_true, List.filter_nil,
        List.flatMap_cons, List.flatMap_nil, append_nil]
      refine order.outpoints.append (distinct plain) (List.disjoint_right.mpr fun out own => ?_)
      obtain ⟨txin, mem, rfl⟩ := List.mem_map.mp own
      intro claimed
      obtain ⟨other, inside, claimed⟩ := List.mem_flatMap.mp claimed
      obtain ⟨inside, otherPlain⟩ := mem_filter.mp inside
      obtain ⟨position, slot⟩ := List.mem_iff_getElem?.mp claimed
      have entered := (consistent.next txin.prevout other position).mpr
        ⟨(order.holds other).mpr inside, by simpa using otherPlain, by rwa [← List.getElem?_map]⟩
      rw [Option.isNone_iff_eq_none.mp (free txin mem)] at entered
      cases entered

/-- The pool after a call of `AcceptToMemoryPool`, which takes the transaction or refuses it. -/
def arrive (pcoinsTip : CoinsMap) (pool : CTxMemPool) : Node × MempoolPolicy × CTransaction →
    CTxMemPool
  | (node, policy, tx) => (node.acceptToMemoryPool policy pcoinsTip pool tx).toOption.getD pool

/-- **The pool can be connected in the order of arrival.** Whatever is handed to
`AcceptToMemoryPool` between two changes of the coins of the chain, and whatever the rest of the
node is at each call. -/
theorem arrived_of_arrivals (pcoinsTip : CoinsMap)
    (arrivals : List (Node × MempoolPolicy × CTransaction)) :
    ∃ arrived, Arrived pcoinsTip (arrivals.foldl (arrive pcoinsTip) .empty) arrived := by
  suffices kept : ∀ pool : CTxMemPool, pool.Consistent →
      (∃ arrived, Arrived pcoinsTip pool arrived) →
      ∃ arrived, Arrived pcoinsTip (arrivals.foldl (arrive pcoinsTip) pool) arrived from
    kept .empty CTxMemPool.empty_consistent ⟨[], fun _ => ⟨nofun, nofun⟩, .nil, trivial, .nil⟩
  induction arrivals with
  | nil => exact fun pool _ order => order
  | cons arrival later ih =>
    rintro pool consistent ⟨arrived, order⟩
    obtain ⟨node, policy, tx⟩ := arrival
    rw [List.foldl_cons]
    cases outcome : node.acceptToMemoryPool policy pcoinsTip pool tx with
    | error reason =>
      have same : arrive pcoinsTip pool (node, policy, tx) = pool := by
        rw [arrive, outcome]
        rfl
      rw [same]
      exact ih pool consistent ⟨arrived, order⟩
    | ok after =>
      have taken : arrive pcoinsTip pool (node, policy, tx) = after := by
        rw [arrive, outcome]
        rfl
      rw [taken]
      obtain ⟨order, consistent⟩ := order.accept consistent outcome
      exact ih after consistent ⟨_, order⟩

def sampleParent : CTransaction :=
  ⟨11, 1, [⟨⟨5, 0⟩, [], 0xffffffff⟩], [.of (2 * COIN - 10000) [0x51]], 0⟩

def sampleChild : CTransaction :=
  ⟨12, 1, [⟨⟨11, 0⟩, [], 0xffffffff⟩], [.of (2 * COIN - 20000) [0x51]], 0⟩

/-- A zerocoin spend with a further input, which claims the output of the other transaction. -/
def sampleMixed : CTransaction :=
  ⟨12, 1, [⟨.null, [0xc2], 1⟩, ⟨⟨11, 0⟩, [], 0xffffffff⟩], [.of (COIN - 10000) [0x52]], 0⟩

def sampleCoins : CoinsMap := fun txid =>
  if txid = 5 then { vout := [.of (2 * COIN) [0x51]], nHeight := 1 } else {}

def sampleNode : Node := CTxMemPool.decoding CTxMemPool.sampleDecode (.sample .main)

def samplePool (tx : CTransaction) : CTxMemPool :=
  (CTxMemPool.empty.addUnchecked ⟨sampleParent, 200⟩).addUnchecked ⟨tx, 200⟩

def sampleEnv (tx : CTransaction) : MinerEnv where
  node := sampleNode
  pcoinsTip := sampleCoins
  pool := samplePool tx
  heap := .sorting
  dPriority tx := if tx.isZerocoinSpend then 2 else 1
  mapDeltas _ := none
  minRelayTxFee := 10000
  blockMaxSize := 750000
  blockPrioritySize := 50000
  blockMinSize := 0

theorem holds_samplePool {tx other : CTransaction} (new : tx.hash = 12) :
    (samplePool tx).Holds other ↔ other = tx ∨ other = sampleParent := by
  have parentNew : CTxMemPool.empty.mapTx.lookup sampleParent.hash = none := rfl
  have lookup : (CTxMemPool.empty.addUnchecked ⟨sampleParent, 200⟩).mapTx.lookup tx.hash =
      none := by
    rw [new]
    decide +kernel
  rw [samplePool, CTxMemPool.holds_addUnchecked lookup, CTxMemPool.holds_addUnchecked parentNew]
  refine or_congr Iff.rfl (or_iff_left ?_)
  rintro ⟨⟩

theorem forall_samplePool {property : CTransaction → Prop} (new : tx.hash = 12) (here : property tx)
    (parent : property sampleParent) :
    ∀ other, (samplePool tx).Holds other → property other := by
  intro other held
  rcases (holds_samplePool new).mp held with rfl | rfl
  · exact here
  · exact parent

theorem disjoint_samplePool (new : tx.hash = 12)
    (apart : List.Disjoint (tx.vin.map prevout) (sampleParent.vin.map prevout)) :
    ∀ first second, (samplePool tx).Holds first → (samplePool tx).Holds second →
      first ≠ second → List.Disjoint (first.vin.map prevout) (second.vin.map prevout) := by
  intro first second held other ne
  rcases (holds_samplePool new).mp held with rfl | rfl
  · rcases (holds_samplePool new).mp other with rfl | rfl
    · exact absurd rfl ne
    · exact apart
  · rcases (holds_samplePool new).mp other with rfl | rfl
    · exact apart.symm
    · exact absurd rfl ne

/-- The pool with a child is connectable. -/
theorem selects_connectable_sample :
    ∃ vtx, (sampleEnv sampleChild).selectedTransactions = some vtx ∧
      (sampleEnv sampleChild).Connectable vtx := by
  have parentHeld : (samplePool sampleChild).Holds sampleParent :=
    (holds_samplePool rfl).mpr (.inr rfl)
  apply selects_connectable (sampleEnv sampleChild)
  · refine ⟨forall_samplePool rfl (fun _ txin mem => ?_) fun _ txin mem => ?_,
      fun first second held other ne _ _ => ?_, fun _ _ _ _ => rfl⟩
    · rw [mem_singleton.mp mem]
      exact .inr ⟨sampleParent, parentHeld, by decide, rfl, by decide⟩
    · rw [mem_singleton.mp mem]
      exact .inl rfl
    · exact disjoint_samplePool rfl (List.disjoint_left.mpr (by decide)) first second held other
        ne
  · exact ⟨forall_samplePool rfl rfl rfl, forall_samplePool rfl ⟨_, rfl⟩ ⟨_, rfl⟩,
      fun tx held txin _ => ⟨_, rfl⟩, forall_samplePool rfl rfl rfl⟩

theorem acceptToMemoryPool_eq_ok {pool : CTxMemPool}
    (loose : node.acceptLoose policy pool tx = .ok ())
    (kind : node.acceptKind (if tx.isZerocoinSpend then fun _ => {} else pool.view pcoinsTip) tx =
      .ok ()) (coins : node.acceptCoins policy
      (if tx.isZerocoinSpend then fun _ => {} else pool.view pcoinsTip) tx = .ok ()) :
    node.acceptToMemoryPool policy pcoinsTip pool tx =
      .ok (pool.addUnchecked ⟨tx, BitVec.ofNat 64 (node.txSerializeSize tx)⟩) :=
  bind_eq_ok.mpr ⟨(), loose, bind_eq_ok.mpr ⟨(), kind, bind_eq_ok.mpr ⟨(), coins, rfl⟩⟩⟩

/-- A zerocoin spend may have an input that is none. `AcceptToMemoryPool` takes it, and it comes
before the transaction that has the output. -/
theorem not_connectable_sample :
    (∃ before,
      sampleNode.acceptToMemoryPool CTxMemPool.samplePolicy sampleCoins .empty sampleParent =
        .ok before ∧
      sampleNode.acceptToMemoryPool CTxMemPool.samplePolicy sampleCoins before sampleMixed =
        .ok (sampleEnv sampleMixed).pool) ∧
    (∀ tx, (sampleEnv sampleMixed).pool.Holds tx → ∀ txin ∈ tx.vin,
      CScript.isZerocoinSpend txin.scriptSig = false →
        sampleCoins.Available txin.prevout ∨
          ∃ parent, (sampleEnv sampleMixed).pool.Holds parent ∧ parent ≠ tx ∧
            parent.hash = txin.prevout.hash ∧ txin.prevout.n.toNat < parent.vout.length) ∧
    (∀ first second, (sampleEnv sampleMixed).pool.Holds first →
      (sampleEnv sampleMixed).pool.Holds second → first ≠ second →
        List.Disjoint (first.vin.map prevout) (second.vin.map prevout)) ∧
    (∀ out, sampleNode.containsOutPoint out = false) ∧
    (sampleEnv sampleMixed).selectedTransactions = some [sampleMixed, sampleParent] ∧
    ∃ txin ∈ sampleMixed.vin, CScript.isZerocoinSpend txin.scriptSig = false ∧
      ¬sampleCoins.Supplies [] txin.prevout := by
  have parentHeld : (samplePool sampleMixed).Holds sampleParent :=
    (holds_samplePool rfl).mpr (.inr rfl)
  refine ⟨⟨CTxMemPool.empty.addUnchecked ⟨sampleParent, 200⟩, ?_, ?_⟩, ?_, ?_, fun _ => rfl, ?_, ?_⟩
  · exact acceptToMemoryPool_eq_ok (by decide +kernel) (by decide +kernel) (by decide +kernel)
  · exact acceptToMemoryPool_eq_ok (by decide +kernel) (by decide +kernel) (by decide +kernel)
  · refine forall_samplePool rfl (fun txin mem plain => ?_) fun txin mem _ => ?_
    · rcases List.mem_pair.mp mem with rfl | rfl
      · cases plain
      · exact .inr ⟨sampleParent, parentHeld, by decide, rfl, by decide⟩
    · rw [mem_singleton.mp mem]
      exact .inl rfl
  · exact disjoint_samplePool rfl (List.disjoint_left.mpr (by decide))
  · decide +kernel
  · refine ⟨⟨⟨11, 0⟩, [], 0xffffffff⟩, by decide, rfl, ?_⟩
    rintro (available | ⟨_, mem, -⟩)
    · cases available
    · cases mem

end MinerEnv

end DogeCash
