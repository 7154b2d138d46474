import DogeCash.Validation.Accounting

/-! # The spends a block records

`ConnectBlock` writes the serials of the zerocoin spends of a block to the database, each
with the id of its transaction. A transaction counts as a zerocoin spend by its first input;
in other transactions an input with the script of a spend fails the script check, since
`OP_ZEROCOINSPEND` is no operation of the interpreter.
-/

namespace DogeCash

namespace Interpreter

variable {crypto : ScriptCrypto} {checker : SignatureChecker} {flags : ScriptFlags}

theorem evalStep_zerocoinSpend (script rest : CScript) (state : EvalState)
    (executes : state.vfExec = []) (few : state.nOpCount < 201)
    (next : state.pc = Op.OP_ZEROCOINSPEND :: rest) :
    evalStep crypto checker flags script state = .error .badOpcode := by
  have read : CScript.getOp state.pc = some (Op.OP_ZEROCOINSPEND, [], rest) := by
    rw [next]
    rfl
  unfold evalStep
  rw [read]
  have counts : (0x60 : UInt8) < Op.OP_ZEROCOINSPEND := by decide
  have enough : ¬201 < state.nOpCount + 1 := by omega
  simp only [if_pos counts]
  rw [if_neg (by simp), if_neg fun many => enough many.2, if_neg (by decide)]
  rw [executes]
  rfl

theorem evalScript_zerocoinSpend (stack : List Valtype) {script : CScript}
    (spend : CScript.isZerocoinSpend script = true) :
    ∃ error, evalScript crypto checker flags stack script = .error error := by
  obtain ⟨rest, rfl⟩ : ∃ rest, script = Op.OP_ZEROCOINSPEND :: rest := by
    cases script with
    | nil => cases spend
    | cons opcode rest =>
      simp only [CScript.isZerocoinSpend, List.head?_cons, beq_iff_eq, Option.some.injEq] at spend
      exact ⟨rest, by rw [spend]⟩
  unfold evalScript
  by_cases large : 10000 < (Op.OP_ZEROCOINSPEND :: rest).length
  · exact ⟨_, if_pos large⟩
  · rw [if_neg large]
    refine ⟨.badOpcode, ?_⟩
    rfl

theorem verifyScript_zerocoinSpend {scriptSig : CScript} (scriptPubKey : CScript)
    (spend : CScript.isZerocoinSpend scriptSig = true) :
    verifyScript crypto checker flags scriptSig scriptPubKey ≠ .ok () := by
  obtain ⟨error, failed⟩ : ∃ error, evalScript crypto checker flags [] scriptSig = .error error :=
    evalScript_zerocoinSpend [] spend
  unfold verifyScript
  split
  · exact nofun
  · rw [failed]
    exact nofun

end Interpreter

/-- What a transaction enters in the database: its spends, each with the id of the
transaction. -/
def CTransaction.recordedSpends (zerocoin : ZerocoinEnv) (tx : CTransaction) :
    List (CoinSpend × UInt256) :=
  if tx.isZerocoinSpend then (tx.zerocoinSpends zerocoin).map fun spend => (spend, tx.hash) else []

namespace CheckInputs

variable {env : ScriptEnv} {view : CoinsMap} {flags : ScriptFlags} {tx : CTransaction}

theorem checkScripts_zerocoinSpend {nIn : Nat} {inputs : List CTxIn}
    (passed : checkScripts env view flags tx nIn inputs = .ok ()) :
    ∀ txin ∈ inputs, CScript.isZerocoinSpend txin.scriptSig = false := by
  induction inputs generalizing nIn with
  | nil => exact nofun
  | cons first rest ih =>
    unfold checkScripts at passed
    cases check : scriptCheck env view flags tx nIn first with
    | error error =>
      rw [check] at passed
      cases passed
    | ok value =>
      rw [check] at passed
      intro txin mem
      rcases List.mem_cons.mp mem with rfl | mem
      · by_contra spend
        exact Interpreter.verifyScript_zerocoinSpend _ (by simpa using spend) check
      · exact ih passed txin mem

theorem zerocoinInputs_of_checkInputs {params : ChainParams} {nSpendHeight : Int}
    (spends : tx.spendsCoins = true)
    (passed : checkInputs params env nSpendHeight view flags true tx = .ok ()) :
    tx.zerocoinInputs = [] := by
  unfold checkInputs at passed
  rw [if_neg (by simp [spends])] at passed
  split at passed
  · cases passed
  · obtain ⟨_, -, passed⟩ := bind_eq_ok.mp passed
    obtain ⟨_, -, passed⟩ := bind_eq_ok.mp passed
    apply List.filter_eq_nil_iff.mpr
    intro txin mem
    rw [checkScripts_zerocoinSpend passed txin mem]
    exact Bool.false_ne_true

end CheckInputs

namespace Node

variable {node : Node} {entry : BlockEntry} {block : CBlock} {tx : CTransaction}
  {before after : Accounting}

/-- What a round of the loop in `ConnectBlock` tells about the zerocoin inputs of a
transaction. -/
structure SpendRound (node : Node) (entry : BlockEntry) (tx : CTransaction)
    (before after : Accounting) : Prop where
  records : after.vSpends = before.vSpends ++ tx.recordedSpends node.zerocoin
  fresh : tx.isZerocoinSpend = true → node.fVerifyingBlocks = false →
    node.isTransactionInChain tx.hash = none
  unspent : tx.isZerocoinSpend = true → ∀ txin ∈ tx.zerocoinInputs, ∃ spend,
    node.zerocoin.txInToZerocoinSpend txin = some spend ∧
      node.isSerialInBlockchain spend.coinSerialNumber = false
  others : tx.isZerocoinSpend = false → node.fScriptChecks entry = true → tx.zerocoinInputs = []

private theorem coinBase_zerocoinInputs (coinBase : tx.isCoinBase = true)
    (notSpend : tx.isZerocoinSpend = false) : tx.zerocoinInputs = [] := by
  unfold CTransaction.isCoinBase at coinBase
  split at coinBase
  · rename_i txin single
    rw [Bool.and_eq_true, COutPoint.isNull, Bool.and_eq_true] at coinBase
    rw [CTransaction.isZerocoinSpend, single] at notSpend
    simp only [coinBase.1.1, Bool.true_and] at notSpend
    simp [CTransaction.zerocoinInputs, single, notSpend]
  · cases coinBase

theorem spendRound_of_connectTransaction
    (ok : node.connectTransaction entry block before tx = .ok after) :
    node.SpendRound entry tx before after := by
  obtain ⟨middle, -, -, -, kind, -, -, rfl⟩ := connectTransaction_steps ok
  unfold connectKind at kind
  split at kind
  · rename_i spend
    obtain ⟨inChain, kind⟩ := require_bind_eq_ok.mp kind
    obtain ⟨spent, inputs, mints⟩ := bind_eq_ok.mp kind
    obtain ⟨spentIs, checks⟩ := foldlM_connectSpendInput _ _ _ inputs
    refine ⟨?_, fun _ verifying => ?_, fun _ txin input => ?_, fun other => ?_⟩
    · rw [connectMints_eq_ok mints, spentIs, CTransaction.recordedSpends, if_pos spend]
      rfl
    · cases found : node.isTransactionInChain tx.hash with
      | none => rfl
      | some nHeightTx =>
        rw [found, verifying] at inChain
        cases inChain
    · obtain ⟨decoded, decodes, checked⟩ := checks txin input
      unfold contextualCheckZerocoinSpend at checked
      rw [Bool.and_eq_true, Bool.not_eq_true'] at checked
      exact ⟨decoded, decodes, checked.2⟩
    · rw [spend] at other
      cases other
  · rename_i notSpend
    simp only [Bool.not_eq_true] at notSpend
    have nothing : tx.recordedSpends node.zerocoin = [] := by
      rw [CTransaction.recordedSpends, notSpend]
      rfl
    have never : ∀ goal : Prop, tx.isZerocoinSpend = true → goal := by
      intro goal spend
      rw [notSpend] at spend
      cases spend
    split at kind
    · rename_i coinBase
      cases kind
      refine ⟨?_, never _, never _, fun _ _ => coinBase_zerocoinInputs coinBase notSpend⟩
      rw [nothing, List.append_nil]
    · rename_i notCoinBase
      have spends : tx.spendsCoins = true :=
        CTransaction.spendsCoins_iff.mpr ⟨by simpa using notCoinBase, notSpend⟩
      obtain ⟨middleIs, -, checked⟩ := connectInputs_eq_ok spends kind
      refine ⟨?_, never _, never _, fun _ scripts => ?_⟩
      · rw [middleIs, nothing, List.append_nil]
      · rw [scripts] at checked
        exact CheckInputs.zerocoinInputs_of_checkInputs spends checked

/-- **What a connected block has recorded.** Its zerocoin spends were new and unspent in the
chain, and are the spends that are written; where scripts were checked, no other transaction
has an input with the script of a spend. -/
theorem connectTransactions_spends {view : CoinsMap} {acct : Accounting}
    (ok : node.connectTransactions entry block view = .ok acct) :
    acct.vSpends = block.vtx.flatMap (·.recordedSpends node.zerocoin) ∧
      ∀ tx ∈ block.vtx, ∃ before after, node.SpendRound entry tx before after := by
  have records := foldlM_appends Accounting.vSpends (·.recordedSpends node.zerocoin)
    (fun tx before after stepped => (spendRound_of_connectTransaction stepped).records) ok
  refine ⟨records.trans (List.nil_append _), fun tx mem => ?_⟩
  obtain ⟨before, after, stepped⟩ := foldlM_rounds ok tx mem
  exact ⟨before, after, spendRound_of_connectTransaction stepped⟩

theorem connectBlock_spends {view : CoinsMap} {hashBestBlock : UInt256}
    {fJustCheck fAlreadyChecked : Bool} {connected : Connected}
    (ok : node.connectBlock entry view hashBestBlock block fJustCheck fAlreadyChecked =
      .ok connected) (notGenesis : block.hash ≠ node.params.hashGenesisBlock) :
    connected.vSpends = block.vtx.flatMap (·.recordedSpends node.zerocoin) ∧
      ∀ tx ∈ block.vtx, ∃ before after, node.SpendRound entry tx before after := by
  obtain ⟨acct, connectedBy, -⟩ := connectBlock_eq_ok ok notGenesis
  rw [connectedBy.vSpends_eq]
  exact connectTransactions_spends connectedBy.loop

end Node

end DogeCash
