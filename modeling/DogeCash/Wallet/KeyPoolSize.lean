import DogeCash.Wallet.KeyPoolRuns

/-! # The size of the key pool

With a pool of one key, a reservation takes the only index out of its set. Once nothing above it
is left, the next record gets the index that is reserved, and replaces the record there.
-/

namespace DogeCash

open KeyPoolWallet
open KeyPoolEnv (missing)

namespace KeyPoolEnv

variable {env : KeyPoolEnv} {wallet : KeyPoolWallet}

theorem reservations_addKeys (missingInternal rounds : ℕ) (fInternal : Bool) :
    (env.addKeys missingInternal rounds fInternal wallet).reservations = wallet.reservations := by
  induction rounds generalizing fInternal wallet with
  | zero => rfl
  | succ rounds ih => exact ih _

theorem reservations_topUpKeyPool (kpSize : UInt32) :
    (env.topUpKeyPool kpSize wallet).reservations = wallet.reservations := by
  unfold topUpKeyPool
  split
  · rfl
  · exact reservations_addKeys ..

theorem getReservedKey_eq_ok {id : ℕ} {nIndex : ℤ} {keypool : CKeyPool} {after : KeyPoolWallet}
    {fInternalIn : Bool} (free : (wallet.reservations id).nIndex = -1)
    (reserves : env.reserveKeyFromKeyPool fInternalIn wallet = .ok (nIndex, keypool, after))
    (positive : 0 < nIndex) (valid : keypool.vchPubKey ≠ []) :
    env.getReservedKey id fInternalIn wallet =
      .ok (after.setReservation id ⟨nIndex, keypool.vchPubKey, keypool.fInternal⟩) := by
  unfold getReservedKey
  rw [if_pos free]
  refine bind_eq_ok.mpr ⟨_, reserves, (if_neg (by omega)).trans ?_⟩
  rw [assertReserved, reservations_setReservation, if_pos rfl, List.isEmpty_eq_false_iff.mpr valid]
  rfl

end KeyPoolEnv

/-- No key for an address is available, and none for change is missing in a pool of one key. -/
structure KeyPoolWallet.Drained (env : KeyPoolEnv) (next : ℤ) (wallet : KeyPoolWallet) : Prop where
  external : wallet.setKeyPool false = ∅
  change : env.isHDEnabled = true → (wallet.setKeyPool true).Nonempty
  follows : wallet.nEnd = next
  positive : 0 < next

section small

variable {env : KeyPoolEnv} {wallet : KeyPoolWallet} {next : ℤ}

theorem KeyPoolWallet.nEnd_congr {other : KeyPoolWallet}
    (same : other.setKeyPool = wallet.setKeyPool) : other.nEnd = wallet.nEnd := by
  unfold nEnd
  rw [same]

section

variable (drained : Drained env next wallet)
include drained

section

variable (unlocked : env.isLocked = false)
include unlocked

section

variable (small : env.nTargetSize 0 ≤ 1)
include small

theorem KeyPoolWallet.Drained.topUpKeyPool :
    env.topUpKeyPool 0 wallet = env.addKey false wallet := by
  have external : missing (env.nTargetSize 0) (wallet.setKeyPool false) = 1 := by
    rw [drained.external, missing, Finset.card_empty]
    omega
  have change : (if !env.isHDEnabled then 0
      else missing (env.nTargetSize 0) (wallet.setKeyPool true)) = 0 := by
    cases hd : env.isHDEnabled with
    | false => rfl
    | true =>
      have available := Finset.card_pos.mpr (drained.change hd)
      rw [Bool.not_true, if_neg Bool.false_ne_true, missing]
      omega
  unfold KeyPoolEnv.topUpKeyPool
  rw [unlocked, if_neg Bool.false_ne_true]
  rw [external, change]
  rfl

theorem KeyPoolWallet.Drained.reserveKeyFromKeyPool :
    ∃ key after, env.reserveKeyFromKeyPool false wallet = .ok (next, ⟨key, false⟩, after) ∧
      key ≠ [] ∧ after.reservations = wallet.reservations ∧ Drained env next after := by
  have sets : ∀ other, (env.addKey false wallet).setKeyPool other =
      if other = false then insert wallet.nEnd (wallet.setKeyPool other)
      else wallet.setKeyPool other := setKeyPool_insertIndex
  have only : (env.addKey false wallet).setKeyPool false = {next} := by
    rw [sets, if_pos rfl, drained.external, drained.follows]
    rfl
  have inhabited : ((env.addKey false wallet).setKeyPool false).Nonempty := by
    rw [only]
    exact Finset.singleton_nonempty next
  have single : ∀ index ∈ (env.addKey false wallet).setKeyPool false, index = next :=
    fun _ mem => Finset.mem_singleton.mp (only ▸ mem)
  have oldest := single _ (Finset.min'_mem _ inhabited)
  have record : (env.addKey false wallet).pool next =
      some ⟨env.generateNewKey wallet.keys.length false, false⟩ :=
    (pool_writePool _ _).trans (if_pos drained.follows.symm)
  have takes : env.takeKey false (env.addKey false wallet) = _ :=
    takeKey_eq_ok inhabited (oldest ▸ record) (List.mem_append_right _ List.mem_cons_self)
      (env.valid _ _)
  rw [oldest] at takes
  have remains : ((env.addKey false wallet).eraseIndex false next).setKeyPool =
      wallet.setKeyPool := by
    funext other
    rw [setKeyPool_eraseIndex]
    cases other with
    | false =>
      rw [if_pos rfl, only, drained.external]
      exact Finset.erase_singleton next
    | true => exact (if_neg Bool.false_ne_true.symm).trans (sets true)
  refine ⟨env.generateNewKey wallet.keys.length false,
    (env.addKey false wallet).eraseIndex false next, ?_, env.valid _ _, rfl, ?_, ?_, ?_,
    drained.positive⟩
  · rw [KeyPoolEnv.reserveKeyFromKeyPool, unlocked, Bool.not_false, if_pos rfl,
      drained.topUpKeyPool unlocked small]
    exact takes
  · rw [remains]
    exact drained.external
  · exact drained.change
  · rw [nEnd_congr remains]
    exact drained.follows

theorem KeyPoolWallet.Drained.getReservedKey (id : ℕ) (free : (wallet.reservations id).nIndex = -1)
    :
    ∃ after, env.step (.getReservedKey id false) wallet = some after ∧ Drained env next after ∧
      (after.reservations id).nIndex = next ∧
      ∀ other, other ≠ id → after.reservations other = wallet.reservations other := by
  obtain ⟨key, taken, reserves, valid, kept, left⟩ := drained.reserveKeyFromKeyPool unlocked small
  refine ⟨taken.setReservation id ⟨next, key, false⟩, ?_, ⟨left.external, left.change, left.follows,
    left.positive⟩, ?_, fun other ne => ?_⟩
  · exact congrArg Except.toOption
      (KeyPoolEnv.getReservedKey_eq_ok free reserves drained.positive valid)
  · rw [reservations_setReservation, if_pos rfl]
  · rw [reservations_setReservation, if_neg ne, kept]

end

end

end

theorem drained_getReservedKey (unlocked : env.isLocked = false)
    (small : env.nTargetSize 0 ≤ 1) :
    ∃ next after, env.step (.getReservedKey 0 false) {} = some after ∧ Drained env next after ∧
      ∀ other, other ≠ 0 → (after.reservations other).nIndex = -1 := by
  obtain ⟨filled, external, change⟩ := (Consistent.empty env).topUpKeyPool unlocked 0
  have single : ((env.topUpKeyPool 0 {}).setKeyPool false).card = 1 := by
    rw [external, Finset.card_empty]
    omega
  have inhabited : ((env.topUpKeyPool 0 {}).setKeyPool false).Nonempty :=
    Finset.card_pos.mp (by omega)
  obtain ⟨key, record, takes⟩ := filled.takeKey_of_nonempty inhabited
  have positive := filled.positive (Finset.min'_mem _ inhabited)
  have valid := filled.valid (filled.recorded _ _ record).1
  generalize oldest : ((env.topUpKeyPool 0 {}).setKeyPool false).min' inhabited = nIndex
    at takes positive
  have reserves : env.reserveKeyFromKeyPool false {} = .ok (nIndex, ⟨key, false⟩,
      (env.topUpKeyPool 0 {}).eraseIndex false nIndex) := by
    rw [KeyPoolEnv.reserveKeyFromKeyPool, unlocked, Bool.not_false, if_pos rfl]
    exact takes
  refine ⟨_, _, congrArg Except.toOption
    (KeyPoolEnv.getReservedKey_eq_ok rfl reserves positive valid), ⟨?_, fun hd => ?_, rfl, ?_⟩,
    fun other ne => ?_⟩
  · have mem : nIndex ∈ (env.topUpKeyPool 0 {}).setKeyPool false :=
      oldest ▸ Finset.min'_mem _ inhabited
    refine (setKeyPool_eraseIndex false).trans ((if_pos rfl).trans (Finset.card_eq_zero.mp ?_))
    rw [Finset.card_erase_of_mem mem, single]
  · refine Finset.card_pos.mp ?_
    have kept : ((env.topUpKeyPool 0 {}).eraseIndex false nIndex).setKeyPool true =
        (env.topUpKeyPool 0 {}).setKeyPool true :=
      (setKeyPool_eraseIndex true).trans (if_neg Bool.false_ne_true.symm)
    rw [hd, if_pos rfl] at change
    exact (congrArg Finset.card kept).trans_gt (by omega)
  · exact nEnd_pos fun index mem => filled.positive (mem_eraseIndex.mp mem).1
  · rw [reservations_setReservation, if_neg ne]
    exact congrArg CReserveKey.nIndex (congrFun (KeyPoolEnv.reservations_topUpKeyPool 0) other)

end small

/-- **The key pool is sound exactly for a target of at least two keys.** Then every sequence of
operations goes through from the empty pool, nothing is reserved or handed out twice, and what is
available has its record. -/
theorem keyPool_sound_iff (env : KeyPoolEnv) (unlocked : env.isLocked = false) :
    (∀ operations, (run env.step operations {}).isSome ∧
      RunStays env.step KeyPoolWallet.Sound operations {}) ↔ 2 ≤ env.nTargetSize 0 := by
  constructor
  · intro sound
    by_contra few
    have small : env.nTargetSize 0 ≤ 1 := by omega
    obtain ⟨next, first, reserves, drained, free⟩ := drained_getReservedKey unlocked small
    obtain ⟨second, reservesSecond, left, held, kept⟩ :=
      drained.getReservedKey unlocked small 1 (free 1 (by decide))
    obtain ⟨third, reservesThird, -, heldThird, keptThird⟩ :=
      left.getReservedKey unlocked small 2
        ((congrArg CReserveKey.nIndex (kept 2 (by decide))).trans (free 2 (by decide)))
    have runs : run env.step
        [.getReservedKey 0 false, .getReservedKey 1 false, .getReservedKey 2 false] {} =
          some third := by
      simp [run, reserves, reservesSecond, reservesThird]
    have positive := drained.positive
    have same : (third.reservations 1).nIndex = next := by
      rw [keptThird 1 (by decide), held]
    exact ((sound _).2.at_end runs).indices 1 2 (by decide) (by omega) (same.trans heldThird.symm)
  · intro several operations
    have meets : RunMeets env.step (fun _ _ => True) operations {} :=
      RunMeets.of_forall (fun _ _ _ => trivial) _
    have performs : ∀ action before, True → Consistent env none before →
        ∃ after, env.step action before = some after ∧ Consistent env none after := by
      intro action before _ consistent
      obtain ⟨after, performs, kept⟩ := consistent.perform unlocked several action
      exact ⟨after, congrArg Except.toOption performs, kept⟩
    obtain ⟨goes, stays⟩ := meets.performed (Consistent env none) performs (Consistent.empty env)
    exact ⟨goes, stays.imp fun _ => Consistent.sound⟩

/-- A wallet without a seed, whose keys are told apart by their length. -/
def sampleKeyPool (keypoolArg : Int) : KeyPoolEnv where
  isHDEnabled := false
  isLocked := false
  keypoolArg := keypoolArg
  generateNewKey := fun count _ => List.replicate (count + 1) 2
  keyID := fun key => key
  valid := fun _ _ => List.cons_ne_nil _ _
  distinct := fun first second _ _ same => by
    have lengths := congrArg List.length same
    rw [List.length_replicate, List.length_replicate] at lengths
    exact Nat.succ_injective lengths

theorem keyPool_sound_sample : 2 ≤ (sampleKeyPool 1000).nTargetSize 0 ∧
    ∀ operations, (run (sampleKeyPool 1000).step operations {}).isSome ∧
      RunStays (sampleKeyPool 1000).step KeyPoolWallet.Sound operations {} :=
  ⟨by decide, (keyPool_sound_iff (sampleKeyPool 1000) rfl).mpr (by decide)⟩

/-- **A pool of one key hands out keys twice.** Two reservations hold the index 1, one key is
handed out twice when the index is returned and reserved again, and a reservation finds no record
when the other one was kept. -/
theorem keyPool_of_one_key :
    (run (sampleKeyPool 1).step [.getReservedKey 0 false, .getReservedKey 1 false] {}).map
      (fun wallet => ((wallet.reservations 0).nIndex, (wallet.reservations 1).nIndex)) =
        some (1, 1) ∧
    (run (sampleKeyPool 1).step [.getReservedKey 0 false, .getReservedKey 1 false, .returnKey 0,
      .getReservedKey 2 false, .keepKey 1, .keepKey 2] {}).map KeyPoolWallet.handedOut =
        some [[2, 2], [2, 2]] ∧
    run (sampleKeyPool 1).step [.getReservedKey 0 false, .getReservedKey 1 false, .keepKey 0,
      .returnKey 1, .getReservedKey 2 false] {} = none := by
  decide +kernel

end DogeCash
