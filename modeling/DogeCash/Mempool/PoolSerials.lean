import DogeCash.Mempool.AcceptToMemoryPool

/-! # The serials of the memory pool

`AcceptToMemoryPool` compares the serials of a zerocoin spend with those of the chain and,
once zerocoin is active, with one another. Those of the other transactions of the pool it
does not look at, so the serials of the pool are distinct as long as no transaction is sent
that spends one of them again (`distinctSerials_of_poolRun`).
-/

namespace DogeCash

def CTransaction.spentSerials (txInToZerocoinSpend : CTxIn → Option CoinSpend)
    (tx : CTransaction) : List Int :=
  (tx.zerocoinInputs.filterMap txInToZerocoinSpend).map CoinSpend.coinSerialNumber

namespace Node

variable {node : Node} {tx : CTransaction}

def serialOf (node : Node) (txin : CTxIn) : List Int :=
  ((node.zerocoin.txInToZerocoinSpend txin).map CoinSpend.coinSerialNumber).toList

theorem flatMap_serialOf (inputs : List CTxIn) : inputs.flatMap node.serialOf =
    (inputs.filterMap node.zerocoin.txInToZerocoinSpend).map CoinSpend.coinSerialNumber := by
  rw [List.map_filterMap, List.filterMap_eq_flatMap_toList]
  rfl

theorem serials_of_redeemInput {fVerifySignature fFakeSerialAttack : Bool} {txin : CTxIn}
    {before after : Redemption}
    (redeemed : node.redeemInput tx fVerifySignature fFakeSerialAttack before txin = .ok after)
    (distinct : before.serials.Nodup) :
    after.serials.Nodup ∧ after.serials = (node.serialOf txin).reverse ++ before.serials := by
  unfold redeemInput at redeemed
  cases decodes : node.zerocoin.txInToZerocoinSpend txin with
  | none =>
    rw [decodes] at redeemed
    cases redeemed
  | some newSpend =>
    rw [decodes] at redeemed
    obtain ⟨-, redeemed⟩ := require_bind_eq_ok.mp redeemed
    obtain ⟨-, redeemed⟩ := require_bind_eq_ok.mp redeemed
    obtain ⟨-, redeemed⟩ := require_bind_eq_ok.mp redeemed
    obtain ⟨_, -, redeemed⟩ := bind_eq_ok.mp redeemed
    obtain ⟨new, redeemed⟩ := require_bind_eq_ok.mp redeemed
    cases redeemed
    rw [Bool.not_eq_true', List.contains_eq_mem, decide_eq_false_iff_not] at new
    rw [serialOf, decodes]
    exact ⟨List.nodup_cons.mpr ⟨new, distinct⟩, rfl⟩

/-- While zerocoin is active, a zerocoin spend passes `CheckTransaction` only with distinct
serials. -/
theorem nodup_spentSerials {fFakeSerialAttack fColdStakingActive : Bool}
    (spend : tx.isZerocoinSpend = true)
    (checked : node.checkTransaction tx true fFakeSerialAttack fColdStakingActive = .ok ()) :
    (tx.spentSerials node.zerocoin.txInToZerocoinSpend).Nodup := by
  obtain ⟨-, checked⟩ := require_bind_eq_ok.mp checked
  obtain ⟨-, checked⟩ := require_bind_eq_ok.mp checked
  obtain ⟨-, checked⟩ := require_bind_eq_ok.mp checked
  obtain ⟨_, -, checked⟩ := bind_eq_ok.mp checked
  obtain ⟨-, checked⟩ := require_bind_eq_ok.mp checked
  obtain ⟨⟨⟩, active, -⟩ := bind_eq_ok.mp checked
  obtain ⟨-, active⟩ := require_bind_eq_ok.mp (requireWhen_eq_ok.mp active rfl)
  have active := requireWhen_eq_ok.mp active spend
  obtain ⟨-, active⟩ := require_bind_eq_ok.mp active
  split at active
  · cases active
  · have zerocoin := reported_eq_ok.mp active
    obtain ⟨-, zerocoin⟩ := require_bind_eq_ok.mp zerocoin
    obtain ⟨redemption, loop, -⟩ := bind_eq_ok.mp zerocoin
    obtain ⟨nodup, collected⟩ := foldlM_nodup Redemption.serials node.serialOf
      (fun _ _ _ redeemed distinct => serials_of_redeemInput redeemed distinct) loop List.nodup_nil
    have whole : redemption.serials =
        (tx.spentSerials node.zerocoin.txInToZerocoinSpend).reverse := by
      rw [collected, flatMap_serialOf]
      exact List.append_nil _
    rw [whole, List.nodup_reverse] at nodup
    exact nodup

end Node

namespace CTxMemPool

/-- The zerocoin spend inputs of the transactions of the pool have different serials. -/
structure DistinctSerials (txInToZerocoinSpend : CTxIn → Option CoinSpend) (pool : CTxMemPool) :
    Prop where
  within : ∀ tx, pool.Holds tx → (tx.spentSerials txInToZerocoinSpend).Nodup
  across : ∀ first second, pool.Holds first → pool.Holds second → first ≠ second →
    List.Disjoint (first.spentSerials txInToZerocoinSpend)
      (second.spentSerials txInToZerocoinSpend)

/-- What happens to the pool: a transaction arrives, whatever the chain and the policy are at
that time, or transactions are removed. -/
inductive Event where
  | acceptToMemoryPool (node : Node) (policy : MempoolPolicy) (pcoinsTip : CoinsMap)
      (tx : CTransaction)
  | remove (action : Action)

section

variable (txInToZerocoinSpend : CTxIn → Option CoinSpend)

def decoding (node : Node) : Node :=
  { node with zerocoin := { node.zerocoin with txInToZerocoinSpend := txInToZerocoinSpend } }

/-- What an event does to the pool. A transaction that is refused changes nothing. -/
def handle (params : ChainParams) : Event → CTxMemPool → CTxMemPool
  | .acceptToMemoryPool node policy pcoinsTip tx, pool =>
    match (decoding txInToZerocoinSpend node).acceptToMemoryPool policy pcoinsTip pool tx with
    | .ok after => after
    | .error _ => pool
  | .remove (.addUnchecked _), pool => pool
  | .remove action, pool => (step params action pool).getD pool

/-- The condition on an event: the transaction that arrives spends no serial that the pool
spends and, before zerocoin is active, none twice. -/
def SpendsAnew (pool : CTxMemPool) : Event → Prop
  | .acceptToMemoryPool node _ _ tx =>
    (∀ other, pool.Holds other → List.Disjoint (other.spentSerials txInToZerocoinSpend)
      (tx.spentSerials txInToZerocoinSpend)) ∧
    (node.params.nZerocoinStartHeight ≤ node.chainHeight ∨
      (tx.spentSerials txInToZerocoinSpend).Nodup)
  | .remove _ => True

end

variable {txInToZerocoinSpend : CTxIn → Option CoinSpend} {params : ChainParams}
  {pool after : CTxMemPool}

theorem distinctSerials_empty : empty.DistinctSerials txInToZerocoinSpend where
  within _ holds := by cases holds
  across _ _ holds := by cases holds

section

variable (distinct : pool.DistinctSerials txInToZerocoinSpend)
include distinct

theorem DistinctSerials.shrinks (shrinks : pool.Shrinks after) :
    after.DistinctSerials txInToZerocoinSpend where
  within tx holds := distinct.within tx (shrinks.holds holds)
  across first second here there :=
    distinct.across first second (shrinks.holds here) (shrinks.holds there)

theorem DistinctSerials.addUnchecked {entry : CTxMemPoolEntry}
    (new : pool.mapTx.lookup entry.tx.hash = none)
    (own : (entry.tx.spentSerials txInToZerocoinSpend).Nodup)
    (others : ∀ other, pool.Holds other → List.Disjoint (other.spentSerials txInToZerocoinSpend)
      (entry.tx.spentSerials txInToZerocoinSpend)) :
    (pool.addUnchecked entry).DistinctSerials txInToZerocoinSpend where
  within tx holds := by
    rcases (holds_addUnchecked new).mp holds with rfl | old
    · exact own
    · exact distinct.within tx old
  across first second here there ne := by
    rcases (holds_addUnchecked new).mp here with rfl | here
    · rcases (holds_addUnchecked new).mp there with rfl | there
      · exact absurd rfl ne
      · exact (others second there).symm
    · rcases (holds_addUnchecked new).mp there with rfl | there
      · exact others first here
      · exact distinct.across first second here there ne

/-- **A step keeps the serials distinct** if it spends none of them again. -/
theorem DistinctSerials.handle {event : Event} (anew : SpendsAnew txInToZerocoinSpend pool event) :
    (handle txInToZerocoinSpend params event pool).DistinctSerials txInToZerocoinSpend := by
  cases event with
  | acceptToMemoryPool node policy pcoinsTip tx =>
    unfold CTxMemPool.handle
    dsimp only
    split
    · rename_i after accepted
      have accepts := Node.accepts_of_acceptToMemoryPool accepted
      have new : pool.mapTx.lookup tx.hash = none :=
        Option.isNone_iff_eq_none.mp (Bool.and_eq_true_iff.mp accepts.acceptable).1
      obtain ⟨others, own⟩ := anew
      rw [accepts.added]
      refine distinct.addUnchecked new ?_ others
      rcases own with active | own
      · cases spend : tx.isZerocoinSpend with
        | true =>
          have checked := accepts.checked
          unfold Node.checkLooseTransaction at checked
          have started : decide ((decoding txInToZerocoinSpend node).params.nZerocoinStartHeight ≤
              (decoding txInToZerocoinSpend node).chainHeight) = true := decide_eq_true active
          rw [started] at checked
          exact Node.nodup_spentSerials spend checked
        | false =>
          unfold CTransaction.spentSerials
          rw [accepts.others spend]
          exact List.nodup_nil
      · exact own
    · exact distinct
  | remove action =>
    by_cases adds : ∃ entry, action = .addUnchecked entry
    · obtain ⟨entry, rfl⟩ := adds
      exact distinct
    · have stepped : CTxMemPool.handle txInToZerocoinSpend params (.remove action) pool =
          (step params action pool).getD pool := by
        cases action with
        | addUnchecked entry => exact absurd ⟨entry, rfl⟩ adds
        | _ => rfl
      rw [stepped]
      cases outcome : step params action pool with
      | none => exact distinct
      | some after =>
        exact distinct.shrinks (shrinks_step (fun entry same => adds ⟨entry, same⟩) outcome)

end

/-- **The serials of the pool are distinct** throughout every run in which no transaction
arrives that spends a serial of the pool again or, before zerocoin is active, one of its own
twice. -/
theorem distinctSerials_of_poolRun (txInToZerocoinSpend : CTxIn → Option CoinSpend)
    (params : ChainParams) (events : List Event)
    (meets : RunMeets (total (handle txInToZerocoinSpend params))
      (SpendsAnew txInToZerocoinSpend) events empty) :
    RunStays (total (handle txInToZerocoinSpend params)) (DistinctSerials txInToZerocoinSpend)
      events empty := by
  refine meets.stays _ ?_ distinctSerials_empty
  intro event before after anew distinct stepped
  cases stepped
  exact distinct.handle anew

/-- A library that decodes every spend to a coin, whose serial the length of the script gives. -/
def sampleDecode (txin : CTxIn) : Option CoinSpend := some {
  denomination := .one
  ptxHash := 0
  accChecksum := 0
  coinSerialNumber := txin.scriptSig.length + 6
  version := 2
  spendType := .spend
  hasValidSignature := .valid
  hasValidSerial _ := true
  verify _ _ := true }

def samplePolicy : MempoolPolicy := ⟨false, fun _ => true, fun _ => true, fun _ _ => true⟩

def sampleSpending (hash : UInt256) (scriptPubKey : CScript) : CTransaction :=
  ⟨hash, 1, [⟨.null, [0xc2], 1⟩], [.of (COIN - 10000) scriptPubKey], 0⟩

def sampleArrival (tx : CTransaction) : Event :=
  .acceptToMemoryPool (.sample .main) samplePolicy (fun _ => {}) tx

def otherSpending : CTransaction :=
  { sampleSpending 2 [0x52] with vin := [⟨.null, [0xc2, 0], 1⟩] }

/-- Spends of the serials 7 and 8 arrive, and both are accepted. -/
theorem distinctSerials_sample :
    RunStays (total (handle sampleDecode .main)) (DistinctSerials sampleDecode)
        [sampleArrival (sampleSpending 1 [0x51]), sampleArrival otherSpending] empty ∧
      (run (total (handle sampleDecode .main))
        [sampleArrival (sampleSpending 1 [0x51]), sampleArrival otherSpending] empty).any
          (fun pool => pool.mapTx.entries.length = 2) = true := by
  refine ⟨distinctSerials_of_poolRun sampleDecode .main _ ⟨⟨?_, .inr (by decide)⟩, ?_⟩, by decide⟩
  · intro other holds
    cases holds
  · refine ⟨⟨fun other holds => ?_, .inr (by decide)⟩, trivial⟩
    have only : other = sampleSpending 1 [0x51] :=
      ((holds_addUnchecked rfl).mp holds).resolve_right (by simp [Holds, empty])
    rw [only]
    exact List.disjoint_left.mpr (by decide)

theorem holds_sampleSpending :
    (handle sampleDecode .main (sampleArrival (sampleSpending 2 [0x52]))
      (handle sampleDecode .main (sampleArrival (sampleSpending 1 [0x51])) empty)).Holds
        (sampleSpending 1 [0x51]) ∧
    (handle sampleDecode .main (sampleArrival (sampleSpending 2 [0x52]))
      (handle sampleDecode .main (sampleArrival (sampleSpending 1 [0x51])) empty)).Holds
        (sampleSpending 2 [0x52]) := by
  unfold Holds
  decide

/-- Two transactions that spend the coin are accepted one after the other. -/
theorem not_distinctSerials_sample :
    ¬RunStays (total (handle sampleDecode .main)) (DistinctSerials sampleDecode)
      [sampleArrival (sampleSpending 1 [0x51]), sampleArrival (sampleSpending 2 [0x52])] empty := by
  rintro ⟨-, -, distinct⟩
  have disjoint := DistinctSerials.across distinct _ _ holds_sampleSpending.1
    holds_sampleSpending.2 (by decide)
  exact disjoint (a := 7) (by decide) (by decide)

end CTxMemPool

end DogeCash
