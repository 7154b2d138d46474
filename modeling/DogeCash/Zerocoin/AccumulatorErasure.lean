import DogeCash.Zerocoin.WitnessScan

/-! # Erasing accumulator checkpoints

A checkpoint packs the checksums of the accumulators, by which their values are found in memory and
in the database. Where checkpoints are erased, those of an earlier block are to be kept.
`EraseCheckpoints` means to skip a checksum of that block, but it looks for the whole checkpoint in
the list of its checksums. `EraseAccumulatorValues` skips a checksum only where the earlier
checkpoint has it at the same denomination. Both say exactly what they lose.
-/

namespace DogeCash

open CoinDenomination (denomList)

/-- `mapAccumulatorValues`, and the values of `zerocoinDB`, by their checksums. -/
structure AccumulatorStore (Value : Type) where
  mapAccumulatorValues : UInt32 → Option Value
  zerocoinDB : UInt32 → Option Value

namespace AccumulatorStore

variable {Value : Type} (store : AccumulatorStore Value)

/-- The value of a checksum is found, in memory or in the database. -/
def Readable (nChecksum : UInt32) : Prop :=
  (store.mapAccumulatorValues nChecksum).isSome ∨ (store.zerocoinDB nChecksum).isSome

instance (nChecksum : UInt32) : Decidable (store.Readable nChecksum) :=
  inferInstanceAs (Decidable (_ ∨ _))

def eraseChecksum (nChecksum : UInt32) : AccumulatorStore Value where
  mapAccumulatorValues := Function.update store.mapAccumulatorValues nChecksum none
  zerocoinDB := Function.update store.zerocoinDB nChecksum none

def eraseAccumulatorValues (nCheckpointErase nCheckpointPrevious : UInt256) :
    AccumulatorStore Value :=
  denomList.foldl
    (fun store denomination =>
      let nChecksumErase := parseChecksum nCheckpointErase denomination
      let nChecksumPrevious := parseChecksum nCheckpointPrevious denomination
      -- if the previous checksum is the same, then it should remain in the database and map
      if nChecksumErase = nChecksumPrevious then store else store.eraseChecksum nChecksumErase)
    store

/-- One round of `EraseCheckpoints`. What is looked for in the list is the whole checkpoint. -/
def eraseBlock (listCheckpointsPrev : List UInt32) (nCheckpointDelete : UInt256) :
    AccumulatorStore Value :=
  denomList.foldl
    (fun store denom =>
      let nChecksumDelete := parseChecksum nCheckpointDelete denom
      if listCheckpointsPrev.any fun listed => BitVec.ofNat 256 listed.toNat = nCheckpointDelete
      then store else store.eraseChecksum nChecksumDelete)
    store

/-- The loop of `EraseCheckpoints` from a block on. Nothing where a null pointer is read. -/
def eraseBlocks (listCheckpointsPrev : List UInt32) (nEndHeight : Int) :
    List UInt256 → Int → AccumulatorStore Value → Option (AccumulatorStore Value)
  | [], _, _ => none
  | nCheckpointDelete :: rest, nHeight, store =>
    let store := store.eraseBlock listCheckpointsPrev nCheckpointDelete
    if nHeight + 1 ≤ nEndHeight then
      eraseBlocks listCheckpointsPrev nEndHeight rest (nHeight + 1) store
    else some store

/-- `EraseCheckpoints`, on the checkpoints of the active chain by their heights. -/
def eraseCheckpoints (chainActive : List UInt256) (nStartHeight nEndHeight : Int) :
    Option (Bool × AccumulatorStore Value) :=
  let height : Int := chainActive.length - 1
  if height < nStartHeight then some (false, store)
  else if nStartHeight < 1 then none
  else
    match chainActive.drop (nStartHeight - 1).toNat with
    | [] => none
    | nCheckpointPrev :: blocks =>
      let listCheckpointsPrev := denomList.map (parseChecksum nCheckpointPrev)
      (eraseBlocks listCheckpointsPrev (min height nEndHeight) blocks nStartHeight store).map
        fun store => (true, store)

/-- `AccumulatorMap::Load`: the values that are set, where all of them are in the database. -/
def load (nCheckpoint : UInt256) : Option (List (CoinDenomination × Value)) :=
  denomList.mapM fun denom =>
    (store.zerocoinDB (parseChecksum nCheckpoint denom)).map fun bnValue => (denom, bnValue)

def Contains (nCheckpoint : UInt256) (nChecksum : UInt32) : Prop :=
  ∃ denom ∈ denomList, parseChecksum nCheckpoint denom = nChecksum

/-- Each checksum of the checkpoint stays readable, and it still loads. -/
structure Keeps (store after : AccumulatorStore Value) (nCheckpoint : UInt256) : Prop where
  readable : ∀ nChecksum, Contains nCheckpoint nChecksum → store.Readable nChecksum →
    after.Readable nChecksum
  loads : (store.load nCheckpoint).isSome → (after.load nCheckpoint).isSome

/-- Exactly the checksums of a kind are erased. -/
def Erases (store after : AccumulatorStore Value) (erased : UInt32 → Prop) : Prop :=
  ∀ nChecksum, (erased nChecksum → ¬after.Readable nChecksum) ∧
    (¬erased nChecksum →
      after.mapAccumulatorValues nChecksum = store.mapAccumulatorValues nChecksum ∧
      after.zerocoinDB nChecksum = store.zerocoinDB nChecksum)

section Erasing

variable {store} {after last : AccumulatorStore Value} {erased more : UInt32 → Prop}

theorem Erases.refl : Erases store store fun _ => False :=
  fun _ => ⟨False.elim, fun _ => ⟨rfl, rfl⟩⟩

theorem Erases.trans (first : Erases store after erased) (second : Erases after last more) :
    Erases store last fun nChecksum => erased nChecksum ∨ more nChecksum := by
  intro nChecksum
  by_cases again : more nChecksum
  · exact ⟨fun _ => (second nChecksum).1 again, fun neither => absurd (.inr again) neither⟩
  · obtain ⟨map, db⟩ := (second nChecksum).2 again
    constructor
    · intro either
      rw [Readable, map, db]
      exact (first nChecksum).1 (either.resolve_right again)
    · intro neither
      rw [map, db]
      exact (first nChecksum).2 fun before => neither (.inl before)

theorem erases_eraseChecksum (nChecksum : UInt32) :
    Erases store (store.eraseChecksum nChecksum) (· = nChecksum) := by
  intro other
  constructor
  · rintro rfl
    simp [Readable, eraseChecksum]
  · intro unlike
    exact ⟨Function.update_of_ne unlike _ _, Function.update_of_ne unlike _ _⟩

theorem erases_foldl (skip : CoinDenomination → Prop) [DecidablePred skip]
    (checksum : CoinDenomination → UInt32) (denoms : List CoinDenomination)
    (store : AccumulatorStore Value) :
    Erases store
      (denoms.foldl (fun store denom => if skip denom then store
        else store.eraseChecksum (checksum denom)) store)
      fun nChecksum => ∃ denom ∈ denoms, ¬skip denom ∧ checksum denom = nChecksum := by
  induction denoms generalizing store with
  | nil => simpa using Erases.refl
  | cons denom denoms ih =>
    have step : Erases store (if skip denom then store else store.eraseChecksum (checksum denom))
        fun nChecksum => ¬skip denom ∧ checksum denom = nChecksum := by
      split_ifs with skipped
      · simpa [skipped] using Erases.refl
      · simpa [skipped, eq_comm] using erases_eraseChecksum (checksum denom)
    simpa only [List.foldl_cons, List.exists_mem_cons_iff] using step.trans (ih _)

theorem Erases.congr (erases : Erases store after erased) (same : ∀ n, erased n ↔ more n) :
    Erases store after more := by
  rwa [← funext fun n => propext (same n)]

theorem erases_eraseAccumulatorValues (c p : UInt256) :
    Erases store (store.eraseAccumulatorValues c p) fun nChecksum =>
      ∃ denom ∈ denomList,
        ¬parseChecksum c denom = parseChecksum p denom ∧ parseChecksum c denom = nChecksum :=
  erases_foldl _ _ _ _

def Listed (listCheckpointsPrev : List UInt32) (nCheckpoint : UInt256) : Prop :=
  ∃ listed ∈ listCheckpointsPrev, BitVec.ofNat 256 listed.toNat = nCheckpoint

theorem erases_eraseBlock (listed : List UInt32) (nCheckpoint : UInt256) :
    Erases store (store.eraseBlock listed nCheckpoint) fun nChecksum =>
      ¬Listed listed nCheckpoint ∧ Contains nCheckpoint nChecksum := by
  refine (erases_foldl
    (fun _ => (listed.any fun one => BitVec.ofNat 256 one.toNat = nCheckpoint) = true)
    (parseChecksum nCheckpoint) denomList store).congr fun nChecksum => ?_
  simp only [List.any_eq_true, decide_eq_true_eq, Contains, Listed]
  tauto

theorem erases_eraseBlocks (listed : List UInt32) (nEndHeight : Int) (blocks : List UInt256)
    (nHeight : Int) (store : AccumulatorStore Value) (some : blocks ≠ [])
    (inside : nEndHeight < nHeight + blocks.length) :
    ∃ after, eraseBlocks listed nEndHeight blocks nHeight store = .some after ∧
      Erases store after fun nChecksum => ∃ (i : ℕ) (n : UInt256), blocks[i]? = .some n ∧
        (i = 0 ∨ nHeight + i ≤ nEndHeight) ∧ ¬Listed listed n ∧ Contains n nChecksum := by
  induction blocks generalizing nHeight store with
  | nil => exact absurd rfl some
  | cons n rest ih =>
    rw [List.length_cons] at inside
    by_cases more : nHeight + 1 ≤ nEndHeight
    · have left : rest ≠ [] := by
        rintro rfl
        simp at inside
        omega
      obtain ⟨after, run, erases⟩ :=
        ih (nHeight + 1) (store.eraseBlock listed n) left (by push_cast at inside; omega)
      refine ⟨after, by rw [eraseBlocks, if_pos more, run], ?_⟩
      refine ((erases_eraseBlock listed n).trans erases).congr fun nChecksum => ?_
      constructor
      · rintro (here | ⟨i, other, found, before, erased⟩)
        · exact ⟨0, n, rfl, .inl rfl, here⟩
        · refine ⟨i + 1, other, found, .inr ?_, erased⟩
          omega
      · rintro ⟨i, other, found, before, erased⟩
        cases i with
        | zero =>
          cases found
          exact .inl erased
        | succ i =>
          refine .inr ⟨i, other, found, .inr ?_, erased⟩
          omega
    · refine ⟨_, by rw [eraseBlocks, if_neg more], (erases_eraseBlock listed n).congr ?_⟩
      refine fun nChecksum => ⟨fun here => ⟨0, n, rfl, .inl rfl, here⟩, ?_⟩
      rintro ⟨i, other, found, before, erased⟩
      obtain rfl : i = 0 := by omega
      cases found
      exact erased

theorem isSome_load (nCheckpoint : UInt256) : (store.load nCheckpoint).isSome ↔
    ∀ nChecksum, Contains nCheckpoint nChecksum → (store.zerocoinDB nChecksum).isSome := by
  have all (denoms : List CoinDenomination) :
      (denoms.mapM fun denom => (store.zerocoinDB (parseChecksum nCheckpoint denom)).map
        fun bnValue => (denom, bnValue)).isSome ↔
      ∀ denom ∈ denoms, (store.zerocoinDB (parseChecksum nCheckpoint denom)).isSome := by
    induction denoms with
    | nil => simp
    | cons denom denoms ih =>
      rw [List.forall_mem_cons, ← ih, List.mapM_cons]
      cases store.zerocoinDB (parseChecksum nCheckpoint denom) <;>
        cases denoms.mapM fun denom => (store.zerocoinDB (parseChecksum nCheckpoint denom)).map
          fun bnValue => (denom, bnValue) <;> simp
  rw [load, all]
  exact ⟨fun each nChecksum ⟨denom, inside, same⟩ => same ▸ each denom inside,
    fun each denom inside => each _ ⟨denom, inside, rfl⟩⟩

theorem Erases.keeps_iff (erases : Erases store after erased) (nCheckpoint : UInt256) :
    Keeps store after nCheckpoint ↔ ∀ nChecksum, Contains nCheckpoint nChecksum →
      store.Readable nChecksum → ¬erased nChecksum := by
  constructor
  · intro keeps nChecksum inside before gone
    exact (erases nChecksum).1 gone (keeps.readable nChecksum inside before)
  · intro spared
    refine ⟨fun nChecksum inside before => ?_, fun loads => ?_⟩
    · obtain ⟨map, db⟩ := (erases nChecksum).2 (spared nChecksum inside before)
      rwa [Readable, map, db]
    · rw [isSome_load] at loads ⊢
      intro nChecksum inside
      rw [((erases nChecksum).2 (spared nChecksum inside (.inr (loads nChecksum inside)))).2]
      exact loads nChecksum inside

/-- What only the first of two checkpoints has cannot be read any more. -/
def Clears (after : AccumulatorStore Value) (c p : UInt256) : Prop :=
  ∀ nChecksum, Contains c nChecksum → ¬Contains p nChecksum → ¬after.Readable nChecksum

theorem clears_eraseAccumulatorValues (c p : UInt256) :
    Clears (store.eraseAccumulatorValues c p) c p := by
  intro nChecksum ⟨denom, inside, same⟩ outside
  refine (erases_eraseAccumulatorValues c p nChecksum).1 ⟨denom, inside, fun equal => ?_, same⟩
  exact outside ⟨denom, inside, equal ▸ same⟩

theorem getElem?_drop_succ {chainActive : List UInt256} {prev : Fin chainActive.length}
    {block : Fin chainActive.length} (behind : prev < block) :
    (chainActive.drop (prev + 1))[(block : ℕ) - (prev + 1)]? = some chainActive[block] := by
  rw [List.getElem?_drop, Nat.add_sub_cancel' behind]
  exact List.getElem?_eq_getElem block.isLt

end Erasing

theorem eraseCheckpoints_eq_some (store : AccumulatorStore Value) (chainActive : List UInt256)
    (prev : Fin chainActive.length) (nEndHeight : Int) :
    ∃ done after, store.eraseCheckpoints chainActive (prev + 1) nEndHeight = some (done, after) ∧
      (Keeps store after chainActive[prev] ↔
        ∀ block : Fin chainActive.length, prev < block →
          ((block : ℕ) = prev + 1 ∨ (block : Int) ≤ nEndHeight) →
          Listed (denomList.map (parseChecksum chainActive[prev]))
            chainActive[block] ∨
          ∀ nChecksum, Contains chainActive[prev] nChecksum → store.Readable nChecksum →
            ¬Contains chainActive[block] nChecksum) := by
  by_cases above : (chainActive.length : Int) - 1 < prev + 1
  · refine ⟨false, store, by rw [eraseCheckpoints, if_pos above], fun _ block behind => ?_, ?_⟩
    · omega
    · exact fun _ => ⟨fun _ _ before => before, id⟩
  have left : chainActive.drop (prev + 1) ≠ [] := by
    rw [Ne, List.drop_eq_nil_iff]
    omega
  obtain ⟨after, run, erases⟩ := erases_eraseBlocks
    (denomList.map (parseChecksum chainActive[prev]))
    (min (chainActive.length - 1 : Int) nEndHeight) (chainActive.drop (prev + 1))
    (prev + 1) store left (by rw [List.length_drop]; omega)
  refine ⟨true, after, ?_, ?_⟩
  · have first : ((prev : Int) + 1 - 1).toNat = prev := by omega
    rw [eraseCheckpoints, if_neg above, if_neg (by omega), first,
      List.drop_eq_getElem_cons prev.isLt]
    exact congrArg (Option.map _) run
  · rw [erases.keeps_iff]
    constructor
    · intro spared block behind before
      refine or_iff_not_imp_left.mpr fun unlisted nChecksum inside readable contained => ?_
      refine spared nChecksum inside readable ⟨_, _, getElem?_drop_succ behind, ?_, unlisted,
        contained⟩
      omega
    · rintro spared nChecksum inside readable ⟨i, n, found, before, unlisted, contained⟩
      rw [List.getElem?_drop] at found
      obtain ⟨bound, rfl⟩ := List.getElem?_eq_some_iff.mp found
      rcases spared ⟨prev + 1 + i, bound⟩ (by rw [Fin.lt_def]; dsimp only; omega)
        (by dsimp only; push_cast; omega) with listed | apart
      · exact unlisted listed
      · exact apart nChecksum inside readable contained

/-- **What the erasures keep.** The checkpoint before a range is kept exactly if none of its readable
checksums is one of a block that is erased, and these are the first block and those up to the end,
as far as their whole checkpoint is not one of its checksums. Erasing one checkpoint keeps another
exactly if no readable checksum of that one is erased at a different denomination. -/
theorem accumulatorErasure (store : AccumulatorStore Value) (chainActive : List UInt256)
    (prev : Fin chainActive.length) (nEndHeight : Int) (c p : UInt256) :
    (∃ done after, store.eraseCheckpoints chainActive (prev + 1) nEndHeight = some (done, after) ∧
      (Keeps store after chainActive[prev] ↔
        ∀ block : Fin chainActive.length, prev < block →
          ((block : ℕ) = prev + 1 ∨ (block : Int) ≤ nEndHeight) →
          Listed (denomList.map (parseChecksum chainActive[prev]))
            chainActive[block] ∨
          ∀ nChecksum, Contains chainActive[prev] nChecksum → store.Readable nChecksum →
            ¬Contains chainActive[block] nChecksum)) ∧
    (Keeps store (store.eraseAccumulatorValues c p) p ∧
        Clears (store.eraseAccumulatorValues c p) c p ↔
      ∀ denom ∈ denomList, parseChecksum c denom ≠ parseChecksum p denom →
        store.Readable (parseChecksum c denom) → ¬Contains p (parseChecksum c denom)) := by
  constructor
  · exact eraseCheckpoints_eq_some store chainActive prev nEndHeight
  · rw [(erases_eraseAccumulatorValues c p).keeps_iff,
      and_iff_left (clears_eraseAccumulatorValues c p)]
    constructor
    · intro spared denom inside differ before contained
      exact spared _ contained before ⟨denom, inside, differ, rfl⟩
    · rintro spared _ contained before ⟨denom, inside, differ, rfl⟩
      exact spared denom inside differ before contained

def full : AccumulatorStore Int := ⟨fun _ => none, fun _ => some 1⟩

/-- A checkpoint with the checksum 1 at two denominations, kept by two blocks, loses it when the
second block is erased. And it is lost where the erased checkpoint has it at another denomination. -/
theorem accumulatorErasure_loses :
    (∃ after, full.eraseCheckpoints [0, 0x100000001, 0x100000001] 2 2 = some (true, after) ∧
      Contains 0x100000001 1 ∧ full.Readable 1 ∧ ¬after.Readable 1) ∧
    Contains 0x100000000 1 ∧ full.Readable 1 ∧
      ¬(full.eraseAccumulatorValues 1 0x100000000).Readable 1 := by
  refine ⟨⟨_, rfl, ⟨.oneThousand, ?_⟩, .inr rfl, ?_⟩, ⟨.oneThousand, ?_⟩, .inr rfl, ?_⟩ <;> decide

end AccumulatorStore

end DogeCash
