import DogeCash.Wallet.KeyPool

/-! # No key is handed out twice

As long as a key is reserved, its record stays, and a new record gets an index above those in the
two sets. So a new record may replace that of a reserved key only if nothing above it is left in
the sets. With a pool of at least two keys a reservation never takes the largest index of a set;
with a smaller one it does.
-/

namespace DogeCash

open KeyPoolEnv (missing)
open Function (update_apply)

namespace KeyPoolWallet

variable {wallet : KeyPoolWallet} {nIndex : ℤ} {fInternal : Bool}

theorem setKeyPool_insertIndex (other : Bool) :
    (wallet.insertIndex fInternal nIndex).setKeyPool other =
      if other = fInternal then insert nIndex (wallet.setKeyPool other)
      else wallet.setKeyPool other := by
  unfold insertIndex
  dsimp only
  rw [update_apply]
  split_ifs with same
  · rw [same]
  · rfl

theorem setKeyPool_eraseIndex (other : Bool) :
    (wallet.eraseIndex fInternal nIndex).setKeyPool other =
      if other = fInternal then (wallet.setKeyPool other).erase nIndex
      else wallet.setKeyPool other := by
  unfold eraseIndex
  dsimp only
  rw [update_apply]
  split_ifs with same
  · rw [same]
  · rfl

variable {other : Bool} {index : ℤ}

theorem mem_insertIndex :
    index ∈ (wallet.insertIndex fInternal nIndex).setKeyPool other ↔
      (other = fInternal ∧ index = nIndex) ∨ index ∈ wallet.setKeyPool other := by
  rw [setKeyPool_insertIndex]
  split_ifs with same
  · simp [same]
  · simp [same]

theorem mem_eraseIndex :
    index ∈ (wallet.eraseIndex fInternal nIndex).setKeyPool other ↔
      index ∈ wallet.setKeyPool other ∧ (other = fInternal → index ≠ nIndex) := by
  rw [setKeyPool_eraseIndex]
  split_ifs with same
  · simp [same, and_comm]
  · simp [same]

theorem pool_writePool (keypool : CKeyPool) (index : ℤ) :
    (wallet.writePool nIndex keypool).pool index =
      if index = nIndex then some keypool else wallet.pool index := update_apply ..

theorem pool_erasePool (index : ℤ) :
    (wallet.erasePool nIndex).pool index =
      if index = nIndex then none else wallet.pool index := update_apply ..

theorem indexAfter_of_mem {setKeyPool : Finset ℤ} (mem : nIndex ∈ setKeyPool) :
    ∃ next, indexAfter setKeyPool = some next ∧ nIndex < next := by
  have inhabited : setKeyPool.Nonempty := ⟨nIndex, mem⟩
  refine ⟨setKeyPool.max' inhabited + 1, dif_pos inhabited, ?_⟩
  have largest := setKeyPool.le_max' nIndex mem
  omega

theorem lt_nEnd (mem : nIndex ∈ wallet.setKeyPool fInternal) : nIndex < wallet.nEnd := by
  obtain ⟨next, after, below⟩ := indexAfter_of_mem mem
  unfold nEnd
  cases fInternal with
  | true =>
    rw [after, Option.getD_some]
    dsimp only
    split
    · omega
    · exact below
  | false =>
    rw [after]
    dsimp only
    omega

theorem nEnd_pos (positive : ∀ index ∈ wallet.setKeyPool true, 0 < index) : 0 < wallet.nEnd := by
  have first : 0 < (indexAfter (wallet.setKeyPool true)).getD 1 := by
    unfold indexAfter
    split
    · rename_i inhabited
      have largest := positive _ (Finset.max'_mem _ inhabited)
      rw [Option.getD_some]
      omega
    · exact Int.one_pos
  unfold nEnd
  split
  · exact lt_max_of_lt_left first
  · exact first

theorem reservations_setReservation (id other : ℕ) (reservation : CReserveKey) :
    (wallet.setReservation id reservation).reservations other =
      if other = id then reservation else wallet.reservations other := update_apply ..

theorem nIndex_resetReservation (id : ℕ) :
    ((wallet.resetReservation id).reservations id).nIndex = -1 := by
  unfold resetReservation
  rw [reservations_setReservation, if_pos rfl]

theorem reservations_resetReservation_of_ne {id other : ℕ} (ne : other ≠ id) :
    (wallet.resetReservation id).reservations other = wallet.reservations other := by
  unfold resetReservation
  rw [reservations_setReservation, if_neg ne]

theorem haveKey_of_mem {keyID : CPubKey → List UInt8} {key : CPubKey} (mem : key ∈ wallet.keys) :
    wallet.haveKey keyID (keyID key) = true :=
  List.any_eq_true.mpr ⟨key, mem, decide_eq_true rfl⟩

end KeyPoolWallet

open KeyPoolWallet

/-- What holds of the key pool while a reservation leaves a larger index behind. `taken` is a key
that an operation has taken out of a set. -/
structure KeyPoolWallet.Consistent (env : KeyPoolEnv) (taken : Option (ℤ × CKeyPool))
    (wallet : KeyPoolWallet) : Prop where
  generated : ∀ key ∈ wallet.keys, ∃ count < wallet.keys.length, ∃ fInternal,
    key = env.generateNewKey count fInternal
  recorded : ∀ nIndex keypool, wallet.pool nIndex = some keypool →
    keypool.vchPubKey ∈ wallet.keys ∧ 0 < nIndex ∧
      ∃ fInternal, ∃ top ∈ wallet.setKeyPool fInternal, nIndex ≤ top
  oneKey : ∀ first second keypool other, wallet.pool first = some keypool →
    wallet.pool second = some other → keypool.vchPubKey = other.vchPubKey → first = second
  pooled : ∀ fInternal, ∀ nIndex ∈ wallet.setKeyPool fInternal,
    ∃ key, wallet.pool nIndex = some ⟨key, fInternal⟩
  reserved : ∀ id, (wallet.reservations id).nIndex ≠ -1 →
    wallet.pool (wallet.reservations id).nIndex =
      some ⟨(wallet.reservations id).vchPubKey, (wallet.reservations id).fInternal⟩ ∧
    ∀ fInternal, (wallet.reservations id).nIndex ∉ wallet.setKeyPool fInternal
  separate : ∀ id other, id ≠ other → (wallet.reservations id).nIndex ≠ -1 →
    (wallet.reservations id).nIndex ≠ (wallet.reservations other).nIndex
  apart : ∀ nIndex keypool, taken = some (nIndex, keypool) → wallet.pool nIndex = some keypool ∧
    (∀ fInternal, nIndex ∉ wallet.setKeyPool fInternal) ∧
    ∀ id, (wallet.reservations id).nIndex ≠ nIndex
  once : wallet.handedOut.Nodup
  gone : ∀ key ∈ wallet.handedOut, key ∈ wallet.keys ∧
    ∀ nIndex keypool, wallet.pool nIndex = some keypool → keypool.vchPubKey ≠ key

namespace KeyPoolWallet.Consistent

variable {env : KeyPoolEnv} {wallet : KeyPoolWallet} {fInternal : Bool} {nIndex : ℤ}

theorem empty (env : KeyPoolEnv) : Consistent env none {} := by
  refine ⟨nofun, nofun, nofun, nofun, fun _ held => absurd rfl held,
    fun _ _ _ held => absurd rfl held, nofun, List.nodup_nil, nofun⟩

variable {taken : Option (ℤ × CKeyPool)}

section

variable (consistent : Consistent env taken wallet)
include consistent

theorem sound : wallet.Sound := by
  refine ⟨consistent.separate, fun id other ne held otherHeld same => ?_, consistent.once,
    consistent.pooled⟩
  exact consistent.separate id other ne held
    (consistent.oneKey _ _ _ _ (consistent.reserved id held).1
      (consistent.reserved other otherHeld).1 same)

theorem newKey_not_mem (fInternal : Bool) :
    env.generateNewKey wallet.keys.length fInternal ∉ wallet.keys := by
  intro mem
  obtain ⟨count, below, other, same⟩ := consistent.generated _ mem
  exact (Nat.ne_of_gt below) (env.distinct _ _ _ _ same)

theorem generated_newKey (fInternal : Bool) :
    ∀ key ∈ (env.newKey fInternal wallet).2.keys,
      ∃ count < (env.newKey fInternal wallet).2.keys.length, ∃ other,
        key = env.generateNewKey count other := by
  intro key mem
  have length : (env.newKey fInternal wallet).2.keys.length = wallet.keys.length + 1 :=
    List.length_append
  rw [length]
  rcases List.mem_append.mp mem with old | new
  · obtain ⟨count, below, other, same⟩ := consistent.generated key old
    exact ⟨count, Nat.lt_succ_of_lt below, other, same⟩
  · exact ⟨_, Nat.lt_succ_self _, fInternal, List.mem_singleton.mp new⟩

theorem pool_nEnd : wallet.pool wallet.nEnd = none := by
  cases record : wallet.pool wallet.nEnd with
  | none => rfl
  | some keypool =>
    obtain ⟨-, -, fInternal, top, mem, le⟩ := consistent.recorded _ _ record
    exact absurd (lt_nEnd mem) (not_lt_of_ge le)

theorem positive (mem : nIndex ∈ wallet.setKeyPool fInternal) : 0 < nIndex := by
  obtain ⟨key, record⟩ := consistent.pooled _ _ mem
  exact (consistent.recorded _ _ record).2.1

end

theorem addKey (consistent : Consistent env none wallet) (fInternal : Bool) :
    Consistent env none (env.addKey fInternal wallet) := by
  have fresh := consistent.pool_nEnd
  have newKey := consistent.newKey_not_mem fInternal
  have pool : ∀ index, (env.addKey fInternal wallet).pool index =
      if index = wallet.nEnd then some ⟨env.generateNewKey wallet.keys.length fInternal, fInternal⟩
      else wallet.pool index := pool_writePool _
  have sets : ∀ {other index}, index ∈ (env.addKey fInternal wallet).setKeyPool other ↔
      (other = fInternal ∧ index = wallet.nEnd) ∨ index ∈ wallet.setKeyPool other :=
    mem_insertIndex
  refine ⟨consistent.generated_newKey fInternal, fun index keypool record => ?_,
    fun first second keypool other record otherRecord same => ?_,
    fun other index mem => ?_, fun id held => ?_, consistent.separate, nofun, consistent.once,
    fun key mem => ?_⟩
  · rw [pool] at record
    split_ifs at record with new
    · cases record
      refine ⟨List.mem_append_right _ List.mem_cons_self, ?_, fInternal, wallet.nEnd,
        sets.mpr (.inl ⟨rfl, rfl⟩), new.le⟩
      rw [new]
      exact nEnd_pos fun _ inside => consistent.positive inside
    · obtain ⟨own, above, other, top, inside, le⟩ := consistent.recorded _ _ record
      exact ⟨List.mem_append_left _ own, above, other, top, sets.mpr (.inr inside), le⟩
  · rw [pool] at record otherRecord
    split_ifs at record otherRecord with new otherNew otherNew
    · rw [new, otherNew]
    · cases record
      have own := (consistent.recorded _ _ otherRecord).1
      rw [← same] at own
      exact absurd own newKey
    · cases otherRecord
      have own := (consistent.recorded _ _ record).1
      rw [same] at own
      exact absurd own newKey
    · exact consistent.oneKey _ _ _ _ record otherRecord same
  · rw [pool]
    rcases sets.mp mem with ⟨rfl, rfl⟩ | old
    · exact ⟨_, if_pos rfl⟩
    · obtain ⟨key, record⟩ := consistent.pooled _ _ old
      rw [if_neg]
      · exact ⟨key, record⟩
      · rintro rfl
        rw [fresh] at record
        cases record
  · obtain ⟨record, outside⟩ := consistent.reserved id held
    have ne : (wallet.reservations id).nIndex ≠ wallet.nEnd := by
      intro same
      rw [same, fresh] at record
      cases record
    refine ⟨(pool _).trans ((if_neg ne).trans record), fun other mem => ?_⟩
    rcases sets.mp mem with ⟨-, same⟩ | old
    · exact ne same
    · exact outside other old
  · obtain ⟨own, erased⟩ := consistent.gone key mem
    refine ⟨List.mem_append_left _ own, fun index keypool record => ?_⟩
    rw [pool] at record
    split_ifs at record
    · cases record
      rintro rfl
      exact newKey own
    · exact erased index keypool record

theorem card_addKey (fInternal other : Bool) :
    ((env.addKey fInternal wallet).setKeyPool other).card =
      (wallet.setKeyPool other).card + if other = fInternal then 1 else 0 := by
  have sets : (env.addKey fInternal wallet).setKeyPool other =
      if other = fInternal then insert wallet.nEnd (wallet.setKeyPool other)
      else wallet.setKeyPool other := setKeyPool_insertIndex other
  rw [sets]
  split_ifs
  · exact Finset.card_insert_of_notMem fun mem => lt_irrefl _ (lt_nEnd mem)
  · rfl

/-- The loop of `TopUpKeyPool` adds keys for addresses first, and those for change last. -/
theorem addKeys (missingInternal rounds : ℕ) (fInternal : Bool)
    (consistent : Consistent env none wallet)
    (last : fInternal = true → rounds ≤ missingInternal) :
    Consistent env none (env.addKeys missingInternal rounds fInternal wallet) ∧
    ((env.addKeys missingInternal rounds fInternal wallet).setKeyPool false).card =
      (wallet.setKeyPool false).card + (rounds - missingInternal) ∧
    ((env.addKeys missingInternal rounds fInternal wallet).setKeyPool true).card =
      (wallet.setKeyPool true).card + min rounds missingInternal := by
  induction rounds generalizing fInternal wallet with
  | zero =>
    refine ⟨consistent, ?_, ?_⟩
    · rw [Nat.zero_sub]
      rfl
    · rfl
  | succ rounds ih =>
    unfold KeyPoolEnv.addKeys
    by_cases internal : rounds < missingInternal
    · rw [decide_eq_true internal, Bool.or_true]
      obtain ⟨kept, external, change⟩ := ih true (consistent.addKey true) fun _ => internal.le
      rw [external, change, card_addKey, card_addKey, if_neg Bool.false_ne_true, if_pos rfl]
      exact ⟨kept, by omega, by omega⟩
    · have notLast : fInternal = false := by
        cases fInternal with
        | false => rfl
        | true => exact absurd (last rfl) (by omega)
      rw [decide_eq_false internal, notLast, Bool.or_false]
      obtain ⟨kept, external, change⟩ := ih false (consistent.addKey false) nofun
      rw [external, change, card_addKey, card_addKey, if_pos rfl, if_neg Bool.false_ne_true.symm]
      exact ⟨kept, by omega, by omega⟩

/-- `TopUpKeyPool` fills up the sets. -/
theorem topUpKeyPool (consistent : Consistent env none wallet) (unlocked : env.isLocked = false)
    (kpSize : UInt32) : Consistent env none (env.topUpKeyPool kpSize wallet) ∧
      ((env.topUpKeyPool kpSize wallet).setKeyPool false).card =
        max (wallet.setKeyPool false).card (max (env.nTargetSize kpSize) 1) ∧
      ((env.topUpKeyPool kpSize wallet).setKeyPool true).card =
        if env.isHDEnabled then max (wallet.setKeyPool true).card (max (env.nTargetSize kpSize) 1)
        else (wallet.setKeyPool true).card := by
  unfold KeyPoolEnv.topUpKeyPool
  rw [unlocked, if_neg Bool.false_ne_true]
  obtain ⟨kept, external, change⟩ := addKeys (if !env.isHDEnabled then 0
      else missing (env.nTargetSize kpSize) (wallet.setKeyPool true))
    ((if !env.isHDEnabled then 0
      else missing (env.nTargetSize kpSize) (wallet.setKeyPool true)) +
        missing (env.nTargetSize kpSize) (wallet.setKeyPool false)) false consistent
    nofun
  refine ⟨kept, ?_, ?_⟩
  · rw [external]
    unfold missing
    omega
  · rw [change]
    unfold missing
    cases env.isHDEnabled with
    | false =>
      rw [Bool.not_false, if_pos rfl, if_neg Bool.false_ne_true]
      omega
    | true =>
      rw [Bool.not_true, if_neg Bool.false_ne_true, if_pos rfl]
      omega

end KeyPoolWallet.Consistent

theorem takeKey_eq_ok {env : KeyPoolEnv} {wallet : KeyPoolWallet} {fInternal : Bool}
    {key : CPubKey} (inhabited : (wallet.setKeyPool fInternal).Nonempty)
    (record : wallet.pool ((wallet.setKeyPool fInternal).min' inhabited) = some ⟨key, fInternal⟩)
    (own : key ∈ wallet.keys) (valid : key ≠ []) :
    env.takeKey fInternal wallet = .ok ((wallet.setKeyPool fInternal).min' inhabited,
      ⟨key, fInternal⟩,
      wallet.eraseIndex fInternal ((wallet.setKeyPool fInternal).min' inhabited)) := by
  have same : ∀ nIndex, (wallet.eraseIndex fInternal nIndex).pool = wallet.pool := fun _ => rfl
  have known : ∀ nIndex, (wallet.eraseIndex fInternal nIndex).haveKey env.keyID (env.keyID key) =
      true := fun _ => haveKey_of_mem own
  unfold KeyPoolEnv.takeKey
  rw [dif_pos inhabited]
  dsimp only
  rw [same, record]
  dsimp only
  rw [known, List.isEmpty_eq_false_iff.mpr valid]
  simp

namespace KeyPoolWallet.Consistent

variable {env : KeyPoolEnv} {wallet : KeyPoolWallet} {fInternal : Bool} {nIndex : ℤ}

variable {key : CPubKey} {keypool : CKeyPool} {id : ℕ}

section

variable (consistent : Consistent env none wallet)
include consistent

theorem valid (mem : key ∈ wallet.keys) : key ≠ [] := by
  obtain ⟨count, -, fInternal, rfl⟩ := consistent.generated key mem
  exact env.valid count fInternal

theorem takeKey_of_nonempty (inhabited : (wallet.setKeyPool fInternal).Nonempty) :
    ∃ key, wallet.pool ((wallet.setKeyPool fInternal).min' inhabited) = some ⟨key, fInternal⟩ ∧
      env.takeKey fInternal wallet = .ok ((wallet.setKeyPool fInternal).min' inhabited,
        ⟨key, fInternal⟩,
        wallet.eraseIndex fInternal ((wallet.setKeyPool fInternal).min' inhabited)) := by
  obtain ⟨key, record⟩ := consistent.pooled _ _ (Finset.min'_mem _ inhabited)
  have own := (consistent.recorded _ _ record).1
  exact ⟨key, record, takeKey_eq_ok inhabited record own (consistent.valid own)⟩

theorem takeKey (several : 2 ≤ (wallet.setKeyPool fInternal).card) :
    ∃ nIndex keypool after, env.takeKey fInternal wallet = .ok (nIndex, keypool, after) ∧
      0 < nIndex ∧ keypool.vchPubKey ≠ [] ∧
      after.reservations = wallet.reservations ∧
      Consistent env (some (nIndex, keypool)) after := by
  have inhabited : (wallet.setKeyPool fInternal).Nonempty := Finset.card_pos.mp (by omega)
  obtain ⟨key, record, takes⟩ := consistent.takeKey_of_nonempty inhabited
  generalize oldest : (wallet.setKeyPool fInternal).min' inhabited = nIndex at record takes
  have mem : nIndex ∈ wallet.setKeyPool fInternal := oldest ▸ Finset.min'_mem _ inhabited
  -- A larger index of the same set stays.
  obtain ⟨larger, inside, above⟩ : ∃ larger ∈ wallet.setKeyPool fInternal, nIndex < larger := by
    refine ⟨_, Finset.max'_mem _ inhabited, ?_⟩
    rw [← oldest]
    exact Finset.min'_lt_max'_of_card _ (by omega)
  have own := (consistent.recorded _ _ record).1
  refine ⟨nIndex, ⟨key, fInternal⟩, _, takes, consistent.positive mem, consistent.valid own, rfl,
    consistent.generated, fun index keypool found => ?_, consistent.oneKey,
    fun other index left => consistent.pooled other index (mem_eraseIndex.mp left).1,
    fun id held => ?_, consistent.separate, ?_, consistent.once, consistent.gone⟩
  · obtain ⟨known, positive, other, top, left, le⟩ := consistent.recorded _ _ found
    refine ⟨known, positive, ?_⟩
    by_cases oldestTop : other = fInternal ∧ top = nIndex
    · obtain ⟨rfl, rfl⟩ := oldestTop
      exact ⟨other, larger, mem_eraseIndex.mpr ⟨inside, fun _ => above.ne'⟩, le.trans above.le⟩
    · exact ⟨other, top, mem_eraseIndex.mpr ⟨left, fun same equal => oldestTop ⟨same, equal⟩⟩, le⟩
  · obtain ⟨found, outside⟩ := consistent.reserved id held
    exact ⟨found, fun other left => outside other (mem_eraseIndex.mp left).1⟩
  · rintro index keypool ⟨⟩
    refine ⟨record, fun other left => ?_, fun id held => ?_⟩
    · obtain ⟨left, notOldest⟩ := mem_eraseIndex.mp left
      obtain ⟨otherKey, otherRecord⟩ := consistent.pooled _ _ left
      rw [record] at otherRecord
      cases otherRecord
      exact notOldest rfl rfl
    · have positive := consistent.positive mem
      have held : (wallet.reservations id).nIndex = nIndex := held
      exact (consistent.reserved id (by omega)).2 fInternal (held ▸ mem)

end

theorem setReservation (consistent : Consistent env (some (nIndex, keypool)) wallet) (id : ℕ) :
    Consistent env none
      (wallet.setReservation id ⟨nIndex, keypool.vchPubKey, keypool.fInternal⟩) := by
  obtain ⟨record, outside, unheld⟩ := consistent.apart nIndex keypool rfl
  refine ⟨consistent.generated, consistent.recorded, consistent.oneKey, consistent.pooled,
    fun other held => ?_, fun first second ne held => ?_, nofun, consistent.once,
    consistent.gone⟩
  · rw [reservations_setReservation] at held ⊢
    split_ifs at held ⊢
    · exact ⟨record, outside⟩
    · exact consistent.reserved other held
  · rw [reservations_setReservation] at held ⊢
    rw [reservations_setReservation]
    split_ifs at held ⊢ with own otherOwn otherOwn
    · exact absurd (own.trans otherOwn.symm) ne
    · exact fun same => unheld second same.symm
    · exact unheld first
    · exact consistent.separate first second ne held

theorem keepTaken (consistent : Consistent env (some (nIndex, keypool)) wallet) :
    Consistent env none ((wallet.erasePool nIndex).handOut keypool.vchPubKey) := by
  obtain ⟨record, outside, unheld⟩ := consistent.apart nIndex keypool rfl
  have pool : ∀ index, ((wallet.erasePool nIndex).handOut keypool.vchPubKey).pool index =
      if index = nIndex then none else wallet.pool index := pool_erasePool
  have kept : ∀ {index other},
      ((wallet.erasePool nIndex).handOut keypool.vchPubKey).pool index = some other →
        index ≠ nIndex ∧ wallet.pool index = some other := by
    intro index other found
    rw [pool] at found
    split_ifs at found with same
    exact ⟨same, found⟩
  refine ⟨consistent.generated, fun index other found => consistent.recorded _ _ (kept found).2,
    fun first second one other found otherFound same =>
      consistent.oneKey _ _ _ _ (kept found).2 (kept otherFound).2 same,
    fun fInternal index mem => ?_, fun id held => ?_, consistent.separate, nofun, ?_,
    fun key mem => ?_⟩
  · obtain ⟨key, found⟩ := consistent.pooled _ _ mem
    refine ⟨key, (pool index).trans ((if_neg ?_).trans found)⟩
    rintro rfl
    exact outside fInternal mem
  · obtain ⟨found, left⟩ := consistent.reserved id held
    exact ⟨(pool _).trans ((if_neg (unheld id)).trans found), left⟩
  · refine List.nodup_append.mpr ⟨consistent.once, List.nodup_singleton _, ?_⟩
    rintro key mem other last rfl
    rw [List.mem_singleton.mp last] at mem
    exact (consistent.gone _ mem).2 _ _ record rfl
  · rcases List.mem_append.mp mem with old | last
    · obtain ⟨known, erased⟩ := consistent.gone key old
      exact ⟨known, fun index other found => erased _ _ (kept found).2⟩
    · rw [List.mem_singleton.mp last]
      refine ⟨(consistent.recorded _ _ record).1, fun index other found same => ?_⟩
      exact (kept found).1 (consistent.oneKey _ _ _ _ (kept found).2 record same)

theorem resetReservation (consistent : Consistent env none wallet) (id : ℕ) :
    Consistent env none (wallet.resetReservation id) := by
  have reservations : ∀ {other}, ((wallet.resetReservation id).reservations other).nIndex ≠ -1 →
      other ≠ id ∧ (wallet.resetReservation id).reservations other = wallet.reservations other := by
    intro other held
    by_cases own : other = id
    · subst own
      exact absurd (nIndex_resetReservation other) held
    · exact ⟨own, reservations_resetReservation_of_ne own⟩
  refine ⟨consistent.generated, consistent.recorded, consistent.oneKey, consistent.pooled,
    fun other held => ?_, fun first second ne held same => ?_, nofun, consistent.once,
    consistent.gone⟩
  · obtain ⟨-, kept⟩ := reservations held
    rw [kept] at held ⊢
    exact consistent.reserved other held
  · have otherHeld := held
    rw [same] at otherHeld
    have firstKept := (reservations held).2
    rw [firstKept] at held same
    rw [(reservations otherHeld).2] at same
    exact consistent.separate first second ne held same

theorem giveUp (consistent : Consistent env none wallet)
    (held : (wallet.reservations id).nIndex ≠ -1) :
    Consistent env (some ((wallet.reservations id).nIndex,
      ⟨(wallet.reservations id).vchPubKey, (wallet.reservations id).fInternal⟩))
      (wallet.resetReservation id) := by
  refine { consistent.resetReservation id with apart := ?_ }
  rintro nIndex keypool ⟨⟩
  obtain ⟨record, outside⟩ := consistent.reserved id held
  refine ⟨record, outside, fun other same => ?_⟩
  by_cases own : other = id
  · subst own
    exact held (same.symm.trans (nIndex_resetReservation other))
  · rw [reservations_resetReservation_of_ne own] at same
    exact consistent.separate id other (Ne.symm own) held same.symm

theorem returnTaken (consistent : Consistent env (some (nIndex, ⟨key, fInternal⟩)) wallet) :
    Consistent env none (wallet.insertIndex fInternal nIndex) := by
  obtain ⟨record, -, unheld⟩ := consistent.apart nIndex _ rfl
  refine ⟨consistent.generated, fun index keypool found => ?_, consistent.oneKey,
    fun other index mem => ?_, fun id held => ?_, consistent.separate, nofun, consistent.once,
    consistent.gone⟩
  · obtain ⟨known, positive, other, top, mem, le⟩ := consistent.recorded _ _ found
    exact ⟨known, positive, other, top, mem_insertIndex.mpr (.inr mem), le⟩
  · rcases mem_insertIndex.mp mem with ⟨rfl, rfl⟩ | old
    · exact ⟨key, record⟩
    · exact consistent.pooled _ _ old
  · obtain ⟨found, left⟩ := consistent.reserved id held
    refine ⟨found, fun other mem => ?_⟩
    rcases mem_insertIndex.mp mem with ⟨-, same⟩ | old
    · exact unheld id same
    · exact left other old

section

variable (consistent : Consistent env none wallet)
include consistent

theorem reserveKeyFromKeyPool (unlocked : env.isLocked = false) (several : 2 ≤ env.nTargetSize 0)
    (fInternal : Bool) :
    ∃ nIndex keypool after, env.reserveKeyFromKeyPool fInternal wallet =
      .ok (nIndex, keypool, after) ∧ 0 < nIndex ∧ keypool.vchPubKey ≠ [] ∧
      Consistent env (some (nIndex, keypool)) after := by
  obtain ⟨filled, external, change⟩ := consistent.topUpKeyPool unlocked 0
  have enough :
      2 ≤ ((env.topUpKeyPool 0 wallet).setKeyPool (fInternal && env.isHDEnabled)).card := by
    cases hd : env.isHDEnabled with
    | false =>
      rw [Bool.and_false, external]
      omega
    | true =>
      rw [hd, if_pos rfl] at change
      cases fInternal with
      | false =>
        rw [Bool.false_and, external]
        omega
      | true =>
        rw [Bool.true_and, change]
        omega
  obtain ⟨nIndex, keypool, after, takes, positive, valid, -, taken⟩ := filled.takeKey enough
  refine ⟨nIndex, keypool, after, ?_, positive, valid, taken⟩
  rw [KeyPoolEnv.reserveKeyFromKeyPool, unlocked]
  exact takes

theorem assertReserved (held : (wallet.reservations id).nIndex ≠ -1) :
    KeyPoolEnv.assertReserved id wallet = .ok wallet := by
  have own := (consistent.recorded _ _ (consistent.reserved id held).1).1
  rw [KeyPoolEnv.assertReserved, List.isEmpty_eq_false_iff.mpr (consistent.valid own)]
  rfl

/-- **Every operation succeeds** with a pool of at least two keys, and leaves the pool
consistent. -/
theorem perform (unlocked : env.isLocked = false) (several : 2 ≤ env.nTargetSize 0)
    (action : KeyPoolAction) :
    ∃ after, env.perform action wallet = .ok after ∧ Consistent env none after := by
  cases action with
  | topUpKeyPool kpSize => exact ⟨_, rfl, (consistent.topUpKeyPool unlocked kpSize).1⟩
  | getReservedKey id fInternalIn =>
    unfold KeyPoolEnv.perform KeyPoolEnv.getReservedKey
    dsimp only
    split_ifs with free
    · obtain ⟨nIndex, keypool, after, reserves, positive, -, taken⟩ :=
        consistent.reserveKeyFromKeyPool unlocked several fInternalIn
      have reserved := taken.setReservation id
      refine ⟨_, bind_eq_ok.mpr ⟨_, reserves, (if_neg (by dsimp only; omega)).trans
        (reserved.assertReserved ?_)⟩, reserved⟩
      rw [reservations_setReservation, if_pos rfl]
      dsimp only
      omega
    · exact ⟨wallet, consistent.assertReserved free, consistent⟩
  | keepKey id =>
    refine ⟨_, rfl, ?_⟩
    unfold KeyPoolEnv.keepKey
    dsimp only
    split_ifs with held
    · exact (consistent.giveUp held).keepTaken
    · exact consistent.resetReservation id
  | returnKey id =>
    refine ⟨_, rfl, ?_⟩
    unfold KeyPoolEnv.returnKey
    dsimp only
    split_ifs with held
    · exact (consistent.giveUp held).returnTaken
    · exact consistent.resetReservation id
  | getKeyFromPool fInternal =>
    obtain ⟨nIndex, keypool, after, reserves, positive, -, taken⟩ :=
      consistent.reserveKeyFromKeyPool unlocked several fInternal
    refine ⟨_, bind_eq_ok.mpr ⟨_, reserves, if_neg ?_⟩, taken.keepTaken⟩
    omega

end

end KeyPoolWallet.Consistent

end DogeCash
