import DogeCash.Network.AddrManEntries

/-! # The address manager over runs

From a new address manager, no sequence of calls makes an assertion fail, and `Check_` finds
nothing wrong after any of them, if `Clear` is only called when there are no entries
(`checked_of_run`). `Clear` leaves the entries and the addresses of before in the maps.
-/

namespace DogeCash

open Function (update update_of_ne update_self)
open Option (bind_some isSome_iff_exists map_some some_inj)

namespace CAddrMan

variable {env : AddrEnv} {man after : CAddrMan} {id : Int} {info entry : CAddrInfo} {short : Int}
  {loose : Int → Prop}

abbrev Settled (env : AddrEnv) (man : CAddrMan) : Prop := man.Linked env 0 fun _ => False

abbrev Unsettled (env : AddrEnv) (id : Int) (man : CAddrMan) : Prop :=
  man.Linked env 0 fun other => False ∨ other = id

theorem Linked.settle (unsettled : man.Linked env short fun other => loose other ∨ other = id)
    (here : ∀ entry, man.entries id = some entry → entry.fInTried = false →
      1 ≤ entry.nRefCount) : man.Linked env short loose :=
  { unsettled with referenced := unsettled.referenced.of_settled here }

theorem Linked.loosen (linked : man.Linked env short loose) (id : Int) :
    man.Linked env short fun other => loose other ∨ other = id :=
  { linked with
    referenced := fun other found present new kept =>
      linked.referenced other found present new fun was => kept (.inl was) }

section Reading

variable (present : man.entries id = some entry)
include present

theorem newPlace_info (nKey : UInt256) (bucket : Fin newBucketCount) :
    (man.info id).newPlace env nKey bucket = entry.newPlace env nKey bucket := by
  rw [← unplaced_info present]
  rfl

theorem triedPlace_info (nKey : UInt256) :
    (man.info id).triedPlace env nKey = entry.triedPlace env nKey := by
  rw [← unplaced_info present]
  rfl

theorem fInTried_info : (man.info id).fInTried = entry.fInTried := by
  rw [← unplaced_info present]
  rfl

end Reading

variable {addr : CNetAddr} {place : TriedPlace} {nTime : Int} {nKey : UInt256}
    {picks : CAddrInfo → Bool} {limit : Int}

theorem find_eq_some (found : man.find addr = some (id, info)) :
    man.mapInfo.lookup id = some info ∧ man.entries id = some info.unplaced := by
  obtain ⟨_, -, mapped⟩ := Option.bind_eq_some_iff.mp found
  obtain ⟨_, known, same⟩ := Option.map_eq_some_iff.mp mapped
  cases same
  exact ⟨known, entries_eq_some known⟩

theorem Settled.of_find {env : AddrEnv} (settled : man.Settled env)
    (found : man.find addr = some (id, info)) :
    man.entries id = some info.unplaced ∧ info.unplaced.Sound := by
  obtain ⟨-, present⟩ := find_eq_some found
  exact ⟨present, settled.tables.sound id info.unplaced present⟩

theorem mapAddr_of_find (indexed : man.Indexed) (missing : man.find addr = none) :
    man.mapAddr addr = none := by
  cases owner : man.mapAddr addr with
  | none => rfl
  | some id =>
    obtain ⟨info, known, -⟩ := (indexed.byAddr addr id).mp owner
    rw [find, owner, bind_some, known] at missing
    cases missing

/-! ## Add -/

theorem enter_eq_some (unsettled : man.Unsettled env id) (present : man.entries id = some entry)
    (new : entry.fInTried = false) (below : entry.nRefCount < newBucketsPerAddress)
    (source : CNetAddr) (nLater : Int) :
    ∃ after, man.enter env source id nLater = some after ∧ after.Settled env := by
  have nonneg := unsettled.tables.refCount_nonneg present
  unfold enter
  extract_lets place
  have placeEq : place = entry.newPlace env man.nKey place.1 := newPlace_info present _ _
  rw [nRefCount_info present]
  split_ifs with holds insert unreferenced
  · refine ⟨man, rfl, unsettled.settle fun found known _ => ?_⟩
    have positive := unsettled.tables.refCount_pos known holds
    omega
  · obtain ⟨cleared, ok, linked, framed, vvNew, others⟩ := clearNew_eq_some unsettled place
    refine ⟨_, by rw [ok, map_some], ?_⟩
    refine linked.enterNew ((others id (Ne.symm holds)).trans present) new below ?_ ?_
    · rw [vvNew, update_self]
    · rw [framed.nKey]
      exact placeEq.symm
  · obtain ⟨after, deleted, linked, -, -, entries⟩ :=
      delete_eq_some unsettled present new unreferenced
    refine ⟨after, deleted, linked.settle fun found known _ => ?_⟩
    rw [entries, update_self] at known
    cases known
  · refine ⟨man, rfl, unsettled.settle fun found known _ => ?_⟩
    rw [present, some_inj] at known
    rw [← known]
    omega

theorem sound_refreshed (sound : entry.Sound) (addr : CAddress) (nTimePenalty nNow : Int) :
    (refreshed addr nTimePenalty nNow entry).Sound :=
  ⟨sound.lastTry, sound.lastSuccess, sound.succeeded, sound.unreferenced, sound.atMost⟩

theorem createNew_linked (settled : man.Settled env) (addr : CAddress) (source : CNetAddr)
    (nTimePenalty : Int) (absent : man.mapAddr addr.netAddr = none)
    (room : man.nIdCount < 2 ^ 31 - 1) :
    (man.createNew addr source nTimePenalty).Unsettled env man.nIdCount ∧
      ∃ entry, (man.createNew addr source nTimePenalty).entries man.nIdCount = some entry ∧
        entry.fInTried = false ∧ entry.nRefCount = 0 := by
  obtain ⟨created, entries⟩ := settled.create addr source absent room
  have present : (man.create addr source).entries man.nIdCount =
      some { addr with source := source, nRandomPos := 0 } := by
    rw [entries, update_self]
  obtain ⟨written, entriesWritten⟩ := created.write
    (fun info => { info with nTime := toUInt32 (max 0 (info.nTime.toNat - nTimePenalty)) })
    present (fun _ => rfl) (fun _ => rfl) (fun _ => rfl) rfl rfl
    ⟨le_refl _, le_refl _, nofun, nofun, show (0 : Int) ≤ 8 by decide⟩
  have here := (congrFun entriesWritten man.nIdCount).trans (update_self ..)
  exact ⟨written.shift _ 0 (by rw [zero_add, add_zero]), _, here, rfl, rfl⟩

theorem add_eq_some (settled : man.Settled env) (addr : CAddress) (source : CNetAddr)
    (nTimePenalty nNow nLater : Int) (nRnd : ℕ) (room : man.nIdCount < 2 ^ 31 - 1) :
    ∃ outcome, man.add env addr source nTimePenalty nNow nLater nRnd = some outcome ∧
      outcome.1.Settled env := by
  unfold add
  by_cases routable : (!env.isRoutable addr.netAddr) = true
  · exact ⟨_, if_pos routable, settled⟩
  rw [if_neg routable]
  cases found : man.find addr.netAddr with
  | none =>
    obtain ⟨linked, entry, present, new, none⟩ :=
      createNew_linked settled addr source nTimePenalty
        (mapAddr_of_find settled.indexed found) room
    obtain ⟨after, entered, kept⟩ := enter_eq_some linked present new
      (none ▸ show (0 : Int) < 8 by decide) source nLater
    exact ⟨(after, true), by dsimp only; rw [entered, map_some], kept⟩
  | some place =>
    obtain ⟨id, info⟩ := place
    obtain ⟨-, present⟩ := find_eq_some found
    obtain ⟨written, entriesWritten⟩ := settled.write
      (refreshed addr nTimePenalty nNow) present (fun _ => rfl) (fun _ => rfl) (fun _ => rfl)
      rfl rfl
      (sound_refreshed (settled.tables.sound id _ present) addr nTimePenalty nNow)
    have here := (congrFun entriesWritten id).trans (update_self ..)
    dsimp only
    by_cases stops : stopsAt addr nRnd
        ((man.modifyInfo id (refreshed addr nTimePenalty nNow)).info id) = true
    · exact ⟨_, if_pos stops, written⟩
    · rw [if_neg stops]
      have goes := stops
      simp only [stopsAt, decide_eq_true_eq, not_or, fInTried_info here, nRefCount_info here,
        Bool.not_eq_true] at goes
      have atMost := (written.tables.sound id _ here).atMost
      obtain ⟨after, entered, kept⟩ := enter_eq_some (written.loosen id) here goes.2.2.1
        (lt_of_le_of_ne atMost goes.2.2.2.1) source nLater
      exact ⟨(after, false), by rw [entered, map_some], kept⟩

/-! ## Good -/

/-- An entry during the first loop of `MakeTried`: only its references change. -/
structure Leaving (env : AddrEnv) (id : Int) (entry : CAddrInfo) (man after : CAddrMan) : Prop where
  unsettled : after.Unsettled env id
  nKey : after.nKey = man.nKey
  entry : ∃ nRefCount, after.entries id = some { entry with nRefCount := nRefCount }
  left : ∀ place, man.vvNew place ≠ id → after.vvNew place ≠ id

theorem dropRef_leaving (unsettled : man.Unsettled env id) (present : man.entries id = some entry)
    (bucket : Fin newBucketCount) :
    Leaving env id entry man (man.dropRef env id bucket) ∧
      (man.dropRef env id bucket).vvNew (entry.newPlace env man.nKey bucket) ≠ id := by
  have valid := unsettled.tables.ne_of_present present
  unfold dropRef
  rw [newPlace_info present]
  extract_lets place
  split_ifs with holds
  · obtain ⟨left, entries⟩ := unsettled.leaveNew present holds
    refine ⟨⟨?_, rfl, ⟨entry.nRefCount - 1, ?_⟩, ?_⟩, ?_⟩
    · refine { left with referenced := fun other found known new kept => ?_ }
      exact left.referenced other found known new fun was =>
        was.elim kept fun same => kept (.inr same)
    · exact (congrFun entries id).trans (update_self ..)
    · intro other before
      change update man.vvNew place (-1) other ≠ id
      by_cases same : other = place
      · rw [same, update_self]
        exact valid.symm
      · rwa [update_of_ne same]
    · change update man.vvNew place (-1) place ≠ id
      rw [update_self]
      exact valid.symm
  · exact ⟨⟨unsettled, rfl, ⟨entry.nRefCount, present⟩, fun _ before => before⟩, holds⟩

theorem foldl_dropRef_leaving (buckets : List (Fin newBucketCount))
    (unsettled : man.Unsettled env id) (present : man.entries id = some entry) :
    Leaving env id entry man (buckets.foldl (fun man bucket => man.dropRef env id bucket) man) ∧
      ∀ bucket ∈ buckets, (buckets.foldl (fun man bucket => man.dropRef env id bucket) man).vvNew
        (entry.newPlace env man.nKey bucket) ≠ id := by
  induction buckets generalizing man entry with
  | nil => exact ⟨⟨unsettled, rfl, ⟨entry.nRefCount, present⟩, fun _ before => before⟩, nofun⟩
  | cons bucket rest ih =>
    obtain ⟨first, out⟩ := dropRef_leaving unsettled present bucket
    obtain ⟨count, here⟩ := first.entry
    obtain ⟨later, outLater⟩ := ih first.unsettled here
    refine ⟨⟨later.unsettled, later.nKey.trans first.nKey, later.entry,
      fun place before => later.left place (first.left place before)⟩, ?_⟩
    rw [first.nKey] at outLater
    rw [List.forall_mem_cons]
    exact ⟨later.left _ out, outLater⟩

theorem dropRefs_leaving (unsettled : man.Unsettled env id)
    (present : man.entries id = some entry) :
    Leaving env id entry man (man.dropRefs env id) ∧
      (man.dropRefs env id).entries id = some { entry with nRefCount := 0 } := by
  unfold dropRefs
  obtain ⟨leaving, out⟩ := foldl_dropRef_leaving (List.finRange newBucketCount) unsettled present
  generalize (List.finRange newBucketCount).foldl (fun man bucket => man.dropRef env id bucket)
    man = after at leaving out ⊢
  refine ⟨leaving, ?_⟩
  obtain ⟨count, here⟩ := leaving.entry
  have nowhere : ∀ place, after.vvNew place ≠ id := by
    intro place holds
    have valid := leaving.unsettled.tables.ne_of_present here
    obtain ⟨found, known, hashed⟩ := leaving.unsettled.tables.new place (holds ▸ valid)
    rw [holds, here, some_inj] at known
    refine out place.1 (List.mem_finRange _) ?_
    rw [leaving.nKey, ← known] at hashed
    have placeEq : entry.newPlace env man.nKey place.1 = place := hashed
    rw [placeEq]
    exact holds
  have zero : (occurrences after.vvNew id : Int) = count :=
    leaving.unsettled.tables.references id _ here
  rw [here, ← zero, occurrences_eq_zero_iff.mpr nowhere]
  rfl

theorem Linked.leaveTried (linked : man.Linked env short loose)
    (present : man.entries id = some entry) (inTried : entry.fInTried = true)
    (hashed : entry.triedPlace env man.nKey = place) (holds : man.vvTried place = id) :
    (man.leaveTried place id).Linked env (short + 1) (fun other => loose other ∨ other = id) ∧
      (man.leaveTried place id).entries =
        update man.entries id (some { entry with fInTried := false }) := by
  have sound := linked.tables.sound _ _ present
  refine linked.modify (fun info => { info with fInTried := false }) _ (short + 1) _ present
    (fun _ => rfl) (fun _ => rfl) (fun _ => rfl) rfl ?_ ?_
    (linked.tables.moveTried { entry with fInTried := false } (-1) present rfl rfl
      ⟨sound.lastTry, sound.lastSuccess, nofun, nofun, sound.atMost⟩ hashed rfl holds)
    linked.referenced.update_loose
  · rw [inTried]
    exact congrArg (· - 1) (add_zero man.nTried).symm
  · rw [inTried]
    exact (add_assoc _ _ _).symm.trans (sub_zero _).symm

theorem Linked.returnToNew (linked : man.Linked env (short + 1) fun other =>
      loose other ∨ other = id) {place : NewPlace}
    (present : man.entries id = some entry) (new : entry.fInTried = false)
    (unreferenced : entry.nRefCount = 0) (free : man.vvNew place = -1)
    (hashed : entry.newPlace env man.nKey place.1 = place) :
    (man.returnToNew place id).Linked env short loose ∧
      (man.returnToNew place id).entries =
        update man.entries id (some { entry with nRefCount := 1 }) := by
  have one : { entry with nRefCount := 1 } = { entry with nRefCount := entry.nRefCount + 1 } := by
    rw [unreferenced]
    rfl
  have tables := linked.tables.enterNew present new
    (unreferenced ▸ show (0 : Int) < 8 by decide) free hashed
  rw [← one] at tables
  obtain ⟨returned, entries⟩ := linked.modify (fun info => { info with nRefCount := 1 })
    (man.returnToNew place id) short _ present (fun _ => rfl) (fun _ => rfl) (fun _ => rfl) rfl
    (add_sub_cancel_right _ _).symm
    (by
      rw [add_sub_cancel_right, add_comm short, ← add_assoc]
      rfl)
    tables (linked.referenced.update fun _ kept => absurd (.inr rfl) kept)
  refine ⟨returned.settle fun found known _ => ?_, entries⟩
  rw [entries, update_self, some_inj] at known
  rw [← known]

/-- `MakeTried` moves a tried entry to the new table. -/
theorem evict_eq_some (linked : man.Linked env short loose) (occupied : man.vvTried place ≠ -1) :
    ∃ after, man.evict env place (man.vvTried place) = some after ∧
      after.Linked env short loose ∧ after.nKey = man.nKey ∧ after.vvTried place = -1 ∧
      ∀ id entry, man.entries id = some entry → entry.fInTried = false → entry.nRefCount = 0 →
        after.entries id = some entry := by
  obtain ⟨old, present, inTried, hashed⟩ := (linked.tables.tried place _ occupied).mp rfl
  generalize evicted : man.vvTried place = nIdEvict at occupied present ⊢
  have unreferenced := (linked.tables.sound _ _ present).unreferenced inTried
  obtain ⟨info, known, -⟩ := lookup_of_entries present
  obtain ⟨left, entriesLeft⟩ := linked.leaveTried present inTried hashed evicted
  have hereLeft : (man.leaveTried place nIdEvict).entries nIdEvict =
      some { old with fInTried := false } := by
    rw [entriesLeft, update_self]
  have vvNewLeft : (man.leaveTried place nIdEvict).vvNew = man.vvNew := rfl
  have nKeyLeft : (man.leaveTried place nIdEvict).nKey = man.nKey := rfl
  have vvTriedLeft : (man.leaveTried place nIdEvict).vvTried = update man.vvTried place (-1) := rfl
  unfold evict
  rw [if_neg (not_not.mpr (mem_mapInfo known))]
  generalize man.leaveTried place nIdEvict = leaving at *
  dsimp only
  generalize placeEq : (leaving.info nIdEvict).newPlace env leaving.nKey
    ((leaving.info nIdEvict).getNewBucket env leaving.nKey (leaving.info nIdEvict).source) =
      newPlace
  rw [newPlace_info hereLeft] at placeEq
  have hashedNew : CAddrInfo.newPlace env leaving.nKey { old with fInTried := false } newPlace.1 =
      newPlace := by
    rw [← placeEq]
    rfl
  obtain ⟨cleared, ok, linkedCleared, framed, vvNew, others⟩ := clearNew_eq_some left newPlace
  have notThere : ∀ {other found}, man.entries other = some found → found.nRefCount = 0 →
      other ≠ leaving.vvNew newPlace := by
    intro other found there none
    rw [vvNewLeft]
    exact (linked.tables.vvNew_ne_of_unreferenced there none newPlace).symm
  have hereCleared := (others _ (notThere present unreferenced)).trans hereLeft
  have free : cleared.vvNew newPlace = -1 := by
    rw [vvNew, update_self]
  obtain ⟨returned, entriesReturned⟩ := linkedCleared.returnToNew hereCleared rfl unreferenced free
    (by rw [framed.nKey]; exact hashedNew)
  refine ⟨cleared.returnToNew newPlace nIdEvict, ?_, returned, framed.nKey.trans nKeyLeft, ?_, ?_⟩
  · rw [ok, bind_some, if_neg (not_not.mpr free)]
  · change cleared.vvTried place = -1
    rw [framed.vvTried, vvTriedLeft, update_self]
  · intro other found there new none
    have differ : other ≠ nIdEvict := by
      rintro rfl
      rw [present, some_inj] at there
      rw [← there, inTried] at new
      cases new
    rw [entriesReturned, update_of_ne differ, others _ (notThere there none), entriesLeft,
      update_of_ne differ]
    exact there

section

variable (settled : man.Settled env)
include settled

theorem makeTried_eq_some (present : man.entries id = some entry) (new : entry.fInTried = false)
    (succeeded : entry.nLastSuccess ≠ 0) :
    ∃ after, man.makeTried env id = some after ∧ after.Settled env := by
  obtain ⟨leaving, here⟩ := dropRefs_leaving (settled.loosen id) present
  unfold makeTried
  generalize man.dropRefs env id = left at leaving here ⊢
  have shifted : left.uncount.Linked env 1 fun other => False ∨ other = id :=
    leaving.unsettled.shift (left.nNew - 1) 1 (by omega)
  have hereDropped : left.uncount.entries id = some { entry with nRefCount := 0 } := here
  generalize left.uncount = dropped at shifted hereDropped ⊢
  dsimp only
  have count : (dropped.info id).nRefCount = 0 := nRefCount_info hereDropped
  rw [if_neg (not_not.mpr count)]
  generalize placeEq : (dropped.info id).triedPlace env dropped.nKey = place
  rw [triedPlace_info hereDropped] at placeEq
  have spaced : ∃ after, dropped.makeSpace env place = some after ∧
      after.Linked env 1 (fun other => False ∨ other = id) ∧ after.nKey = dropped.nKey ∧
      after.vvTried place = -1 ∧ after.entries id = some { entry with nRefCount := 0 } := by
    unfold makeSpace
    split_ifs with occupied
    · obtain ⟨after, evicted, linked, nKeyAfter, free, kept⟩ := evict_eq_some shifted occupied
      exact ⟨after, evicted, linked, nKeyAfter, free, kept id _ hereDropped new rfl⟩
    · exact ⟨dropped, rfl, shifted, rfl, not_not.mp occupied, hereDropped⟩
  obtain ⟨after, ok, linked, nKeyAfter, free, hereAfter⟩ := spaced
  rw [ok, bind_some, if_neg (not_not.mpr free)]
  refine ⟨_, rfl, ?_⟩
  have sound := linked.tables.sound _ _ hereAfter
  obtain ⟨entered, entries⟩ := linked.modify (fun info => { info with fInTried := true })
    (after.enterTried place id) 0 _ hereAfter (fun _ => rfl) (fun _ => rfl) (fun _ => rfl) rfl
    (by rw [new]; exact (sub_zero _).symm)
    (by
      rw [new]
      change after.nNew + 0 = after.nNew + 1 + 0 - 1
      omega)
    (linked.tables.moveTried { entry with nRefCount := 0, fInTried := true } id hereAfter rfl rfl
      ⟨sound.lastTry, sound.lastSuccess, fun _ => succeeded, fun _ => rfl, sound.atMost⟩
      (nKeyAfter ▸ placeEq) rfl free)
    (linked.referenced.update nofun)
  refine entered.settle fun found known tried => ?_
  rw [entries, update_self, some_inj] at known
  rw [← known] at tried
  cases tried

theorem good_eq_some (addr : CService) (nRnd : ℕ) (positive : 0 < nTime) :
    ∃ after, man.good env addr nTime nRnd = some after ∧ after.Settled env := by
  unfold good
  cases found : man.find addr.ip with
  | none => exact ⟨man, rfl, settled⟩
  | some place =>
    obtain ⟨id, info⟩ := place
    obtain ⟨present, sound⟩ := settled.of_find found
    obtain ⟨written, entries⟩ := settled.write
      (fun info => { info with nLastSuccess := nTime, nLastTry := nTime, nAttempts := 0 })
      present (fun _ => rfl) (fun _ => rfl) (fun _ => rfl) rfl rfl
      ⟨positive.le, positive.le, fun _ => positive.ne', sound.unreferenced, sound.atMost⟩
    have here := (congrFun entries id).trans (update_self ..)
    dsimp only
    split_ifs with other tried nowhere
    · exact ⟨man, rfl, settled⟩
    · exact ⟨_, rfl, written⟩
    · exact ⟨_, rfl, written⟩
    · exact makeTried_eq_some written here (Bool.not_eq_true _ ▸ tried) positive.ne'

/-! ## The other calls -/

theorem settled_attempt (addr : CService) (nonneg : 0 ≤ nTime) :
    (man.attempt addr nTime).Settled env := by
  unfold attempt
  cases found : man.find addr.ip with
  | none => exact settled
  | some place =>
    obtain ⟨present, sound⟩ := settled.of_find found
    dsimp only
    split_ifs
    · exact settled
    · exact (settled.write
        (fun info => { info with nLastTry := nTime, nAttempts := info.nAttempts + 1 })
        present (fun _ => rfl) (fun _ => rfl) (fun _ => rfl) rfl rfl
        { sound with lastTry := nonneg }).1

theorem settled_connected (addr : CService) (nTime : Int) :
    (man.connected addr nTime).Settled env := by
  unfold connected
  cases found : man.find addr.ip with
  | none => exact settled
  | some place =>
    obtain ⟨present, sound⟩ := settled.of_find found
    dsimp only
    split_ifs
    · exact settled
    · exact (settled.write (fun info => { info with nTime := toUInt32 nTime }) present
        (fun _ => rfl) (fun _ => rfl) (fun _ => rfl) rfl rfl
        ⟨sound.lastTry, sound.lastSuccess, sound.succeeded, sound.unreferenced, sound.atMost⟩).1
    · exact settled

end

theorem gather_eq_some (nNodes : ℕ) (nNow : ℕ → Int) (nRnd : ℕ → ℕ) {rounds n : ℕ}
    (vAddr : List CAddress) (settled : man.Settled env)
    (inside : n + rounds = man.vRandom.length) :
    ∃ outcome, man.gather nNodes nNow nRnd rounds n vAddr = some outcome ∧
      outcome.1.Settled env := by
  induction rounds generalizing man n vAddr with
  | zero => exact ⟨_, rfl, settled⟩
  | succ rounds ih =>
    unfold gather
    split_ifs with enough
    · exact ⟨_, rfl, settled⟩
    · have other : nRnd n % (man.vRandom.length - n) + n < man.vRandom.length := by
        have below := Nat.mod_lt (nRnd n) (show 0 < man.vRandom.length - n by omega)
        omega
      obtain ⟨swapped, ok, shuffled, -⟩ :=
        swapRandom_succeeds settled.indexed (show n < man.vRandom.length by omega) other
      have linked := settled.shuffle shuffled
      have length := shuffled.length
      have here := List.getElem?_eq_getElem (show n < swapped.vRandom.length by omega)
      obtain ⟨info, known, -⟩ := linked.indexed.listed n _ here
      rw [ok, bind_some, here]
      dsimp only
      rw [if_neg (not_not.mpr (mem_mapInfo known))]
      exact ih _ linked (by omega)

theorem settled_clear (byAddr : ∀ addr id, man.mapAddr addr = some id ↔
      ∃ info, man.mapInfo.lookup id = some info ∧ info.netAddr = addr)
    (empty : man.mapInfo.keys = []) (keyed : nKey ≠ 0) :
    (man.clear nKey).Settled env := by
  have none : ∀ id, man.mapInfo.lookup id = none := by
    intro id
    refine AList.lookup_eq_none.mpr fun mem => ?_
    have inKeys : id ∈ man.mapInfo.keys := mem
    rw [empty] at inKeys
    cases inKeys
  have noEntries : man.entries = fun _ => Option.none := by
    funext id
    rw [entries, none, Option.map_none]
  have noEntryList : man.mapInfo.entries = [] := List.map_eq_nil_iff.mp empty
  have noTried : man.triedCount = 0 := by
    rw [triedCount, KeyedMap.total, noEntryList]
    rfl
  have noNew : man.newCount = 0 := by
    rw [newCount, KeyedMap.total, noEntryList]
    rfl
  refine ⟨⟨?_, byAddr, ?_, ?_, le_refl _, show (0 : Int) < 2 ^ 31 by decide⟩,
    ⟨noTried.symm, noNew.symm, ?_⟩, ?_, ?_, keyed⟩
  · intro id info known
    cases (none id).symm.trans known
  · intro id info known
    cases (none id).symm.trans known
  · intro pos id listed
    cases listed
  · change (0 : Int) = man.triedCount + man.newCount
    rw [noTried, noNew, add_zero]
  · change AddrTables env nKey man.entries _ _
    rw [noEntries]
    exact .empty
  · change Referenced _ man.entries
    rw [noEntries]
    intro id info known
    cases known

theorem settled_construct (keyed : nKey ≠ 0) : (construct nKey).Settled env := by
  have known (addr : CNetAddr) (id : Int) : (construct nKey).mapAddr addr = some id ↔
      ∃ info, (construct nKey).mapInfo.lookup id = some info ∧ info.netAddr = addr :=
    iff_of_false (Option.some_ne_none id).symm fun ⟨info, present, _⟩ =>
      Option.some_ne_none info present.symm
  exact settled_clear known rfl keyed

/-! ## What `Check_` and `Serialize` find -/

theorem writeInfos_eq_some (infos : List (Sigma fun _ : Int => CAddrInfo)) (nIds : Int)
    (enough : nIds + infos.countP (fun info => picks info.2) ≤ limit) :
    writeInfos picks limit nIds infos =
      some ((infos.filter fun info => picks info.2).map Sigma.snd) := by
  induction infos generalizing nIds with
  | nil => rfl
  | cons info rest ih =>
    rw [List.countP_cons] at enough
    unfold writeInfos
    split_ifs with picked full
    · rw [if_pos picked] at enough
      omega
    · rw [if_pos picked] at enough
      rw [ih (nIds + 1) (by omega), List.filter_cons, if_pos picked]
      rfl
    · rw [if_neg picked] at enough
      rw [ih nIds enough, List.filter_cons, if_neg picked]

theorem writeInfos_isSome (infos : List (Sigma fun _ : Int => CAddrInfo)) (nIds : Int)
    (enough : nIds + infos.countP (fun info => picks info.2) ≤ limit) :
    (writeInfos picks limit nIds infos).isSome := by
  rw [writeInfos_eq_some infos nIds enough]
  rfl

theorem newCount_eq_countP (man : CAddrMan) :
    man.newCount = man.mapInfo.entries.countP fun info => !info.2.fInTried := by
  have weight : (fun info : CAddrInfo => if info.fInTried then (0 : Int) else 1) =
      fun info => if !info.fInTried then 1 else 0 := by
    funext info
    cases info.fInTried with
    | false => rfl
    | true => rfl
  rw [newCount, weight, KeyedMap.total_eq_countP]

theorem countP_sortedInfos (man : CAddrMan) (picks : CAddrInfo → Bool) :
    man.sortedInfos.countP (fun info => picks info.2) =
      man.mapInfo.entries.countP fun info => picks info.2 :=
  (List.perm_insertionSort _ _).countP_eq _

theorem countP_nRefCount (settled : man.Settled env) :
    (man.mapInfo.entries.countP fun info => decide (info.2.nRefCount ≠ 0) : ℕ) = man.newCount := by
  rw [newCount_eq_countP, Int.natCast_inj]
  refine List.countP_congr fun info mem => ?_
  have known : man.mapInfo.lookup info.1 = some info.2 :=
    (List.mem_dlookup_iff man.mapInfo.nodupKeys).mpr mem
  have present := entries_eq_some known
  have sound := settled.tables.sound _ _ present
  rw [decide_eq_true_eq, Bool.not_eq_true']
  constructor
  · intro referenced
    rw [← Bool.not_eq_true]
    exact fun inTried => referenced (sound.unreferenced inTried)
  · intro new none
    have placed := settled.referenced _ _ present new not_false
    change 1 ≤ info.2.nRefCount at placed
    omega

theorem serialize_isSome (settled : man.Settled env) : man.serialize.isSome := by
  have new : (writeInfos (fun info => info.nRefCount ≠ 0) man.nNew 0 man.sortedInfos).isSome := by
    refine writeInfos_isSome _ _ ?_
    have exact := settled.counted.new
    have sorted := countP_sortedInfos man fun info => decide (info.nRefCount ≠ 0)
    rw [sorted, countP_nRefCount settled]
    omega
  have tried : (writeInfos CAddrInfo.fInTried man.nTried 0 man.sortedInfos).isSome := by
    refine writeInfos_isSome _ _ ?_
    have exact := settled.counted.tried
    rw [triedCount, KeyedMap.total_eq_countP] at exact
    rw [countP_sortedInfos, exact, zero_add]
  obtain ⟨newInfos, written⟩ := isSome_iff_exists.mp new
  obtain ⟨triedInfos, writtenTried⟩ := isSome_iff_exists.mp tried
  rw [serialize, written, bind_some, writtenTried]
  rfl

/-- The conditions of `Check_` except those on `mapAddr`, each with the error that it returns
otherwise. -/
structure CheckedTables (env : AddrEnv) (man : CAddrMan) : Prop where
  /-- -1 -/
  succeeded : ∀ id info, man.mapInfo.lookup id = some info → info.fInTried = true →
    info.nLastSuccess ≠ 0
  /-- -2 -/
  unreferenced : ∀ id info, man.mapInfo.lookup id = some info → info.fInTried = true →
    info.nRefCount = 0
  /-- -3 and -4 -/
  referenced : ∀ id info, man.mapInfo.lookup id = some info → info.fInTried = false →
    1 ≤ info.nRefCount ∧ info.nRefCount ≤ newBucketsPerAddress
  /-- -6 -/
  lastTry : ∀ id info, man.mapInfo.lookup id = some info → 0 ≤ info.nLastTry
  /-- -7 -/
  size : (man.vRandom.length : Int) = man.nTried + man.nNew
  /-- -8 -/
  lastSuccess : ∀ id info, man.mapInfo.lookup id = some info → 0 ≤ info.nLastSuccess
  /-- -9 -/
  nTried : man.nTried = man.mapInfo.entries.countP fun info => info.2.fInTried
  /-- -10 -/
  nNew : man.nNew = man.mapInfo.entries.countP fun info => !info.2.fInTried
  /-- -11, -17 and -18 -/
  triedPlaces : ∀ place, man.vvTried place ≠ -1 → ∃ info,
    man.mapInfo.lookup (man.vvTried place) = some info ∧ info.fInTried = true ∧
      info.triedPlace env man.nKey = place
  /-- -11 and -13 -/
  triedOnce : ∀ id info, man.mapInfo.lookup id = some info → info.fInTried = true →
    ∃! place, man.vvTried place = id
  /-- -12 and -19 -/
  newPlaces : ∀ place, man.vvNew place ≠ -1 → ∃ info,
    man.mapInfo.lookup (man.vvNew place) = some info ∧ info.fInTried = false ∧
      info.newPlace env man.nKey place.1 = place
  /-- -12 and -15 -/
  newCount : ∀ id info, man.mapInfo.lookup id = some info → info.fInTried = false →
    (occurrences man.vvNew id : Int) = info.nRefCount
  /-- -14 -/
  positions : ∀ id info, man.mapInfo.lookup id = some info →
    ∃ pos : ℕ, info.nRandomPos = pos ∧ man.vRandom[pos]? = some id
  /-- -16 -/
  keyed : man.nKey ≠ 0

/-- The conditions of `Check_`, and that the random order and the addresses have no ids of others. -/
structure Checked (env : AddrEnv) (man : CAddrMan) : Prop extends CheckedTables env man where
  /-- -5 -/
  addresses : ∀ id info, man.mapInfo.lookup id = some info → man.mapAddr info.netAddr = some id
  listed : ∀ id ∈ man.vRandom, id ∈ man.mapInfo
  owned : ∀ addr id, man.mapAddr addr = some id →
    ∃ info, man.mapInfo.lookup id = some info ∧ info.netAddr = addr

theorem checked_of_settled (settled : man.Settled env) : man.Checked env := by
  obtain ⟨indexed, counted, tables, referenced, keyed⟩ := settled
  have known : ∀ {id info}, man.mapInfo.lookup id = some info →
      man.entries id = some info.unplaced := entries_eq_some
  have sound : ∀ {id info}, man.mapInfo.lookup id = some info → info.unplaced.Sound :=
    fun present => tables.sound _ _ (known present)
  have nNew : man.nNew = man.newCount := (add_zero _).symm.trans counted.new
  refine
    { succeeded := fun id info present => (sound present).succeeded
      unreferenced := fun id info present => (sound present).unreferenced
      referenced := fun id info present new =>
        ⟨referenced id info.unplaced (known present) new not_false, (sound present).atMost⟩
      addresses := fun id info present => (indexed.byAddr _ _).mpr ⟨info, present, rfl⟩
      lastTry := fun id info present => (sound present).lastTry
      size := ?_
      lastSuccess := fun id info present => (sound present).lastSuccess
      nTried := ?_
      nNew := ?_
      triedPlaces := ?_
      triedOnce := ?_
      newPlaces := ?_
      newCount := fun id info present _ => tables.references id info.unplaced (known present)
      positions := indexed.placed
      keyed := keyed
      listed := ?_
      owned := fun addr id owner => (indexed.byAddr addr id).mp owner }
  · rw [counted.all, counted.tried, nNew]
  · rw [counted.tried, triedCount, KeyedMap.total_eq_countP]
  · rw [nNew, newCount_eq_countP]
  · intro place occupied
    obtain ⟨entry, present, inTried, hashed⟩ := (tables.tried place _ occupied).mp rfl
    obtain ⟨info, there, rfl⟩ := lookup_of_entries present
    exact ⟨info, there, inTried, hashed⟩
  · intro id info present inTried
    have valid := tables.ne_of_present (known present)
    refine ⟨info.triedPlace env man.nKey, ?_, ?_⟩
    · exact (tables.tried _ id valid).mpr ⟨_, known present, inTried, rfl⟩
    · intro place holds
      obtain ⟨entry, there, -, hashed⟩ := (tables.tried place id valid).mp holds
      rw [known present, some_inj] at there
      rw [← hashed, ← there]
      rfl
  · intro place occupied
    obtain ⟨entry, present, hashed⟩ := tables.new place occupied
    have new := tables.not_tried_of_new present rfl
    obtain ⟨info, there, rfl⟩ := lookup_of_entries present
    exact ⟨info, there, new, hashed⟩
  · intro id mem
    obtain ⟨pos, inside⟩ := List.mem_iff_getElem?.mp mem
    obtain ⟨info, there, -⟩ := indexed.listed pos id inside
    exact mem_mapInfo there

end CAddrMan

/-! ## Runs -/

/-- What a call must meet: there are ids left for an address that is added, times are not
negative, and positive for `Good_`, and `Clear` is called when there are no entries, with a
random key that is not null. -/
def CAddrMan.Permits (man : CAddrMan) : AddrManAction → Prop
  | .add .. => man.nIdCount < 2 ^ 31 - 1
  | .good _ nTime _ => 0 < nTime
  | .attempt _ nTime => 0 ≤ nTime
  | .connected .. => True
  | .getAddr .. => True
  | .clear nKey => man.mapInfo.keys = [] ∧ nKey ≠ 0

instance (man : CAddrMan) : ∀ action, Decidable (man.Permits action)
  | .add .. => inferInstanceAs (Decidable (_ < _))
  | .good .. => inferInstanceAs (Decidable (_ < _))
  | .attempt .. => inferInstanceAs (Decidable (_ ≤ _))
  | .connected .. => isTrue trivial
  | .getAddr .. => isTrue trivial
  | .clear _ => inferInstanceAs (Decidable (_ ∧ _))

namespace AddrEnv

variable (env : AddrEnv)

theorem step_settled {man : CAddrMan} {action : AddrManAction} (permitted : man.Permits action)
    (settled : man.Settled env) :
    ∃ after, env.step action man = some after ∧ after.Settled env := by
  cases action with
  | add addr source nTimePenalty nNow nLater nRnd =>
    obtain ⟨outcome, added, kept⟩ :=
      CAddrMan.add_eq_some settled addr source nTimePenalty nNow nLater nRnd permitted
    exact ⟨outcome.1, by rw [step, added, map_some], kept⟩
  | good addr nTime nRnd => exact CAddrMan.good_eq_some settled addr nRnd permitted
  | attempt addr nTime => exact ⟨_, rfl, CAddrMan.settled_attempt settled addr permitted⟩
  | connected addr nTime => exact ⟨_, rfl, CAddrMan.settled_connected settled addr nTime⟩
  | getAddr nNow nRnd vAddr =>
    obtain ⟨outcome, gathered, kept⟩ :=
      CAddrMan.gather_eq_some _ nNow nRnd vAddr settled (zero_add _)
    exact ⟨outcome.1, by rw [step, CAddrMan.getAddr, gathered, map_some], kept⟩
  | clear nKey =>
    exact ⟨_, rfl, CAddrMan.settled_clear settled.indexed.byAddr permitted.1 permitted.2⟩

theorem settled_after_run {nKey : UInt256} (keyed : nKey ≠ 0) {actions : List AddrManAction}
    (meets : RunMeets env.step CAddrMan.Permits actions (.construct nKey)) {final : CAddrMan}
    (runs : run env.step actions (.construct nKey) = some final) : final.Settled env := by
  refine meets.invariant (·.Settled env) (fun _ before after permitted settled stepped => ?_) runs
    (CAddrMan.settled_construct keyed)
  obtain ⟨other, performed, kept⟩ := env.step_settled permitted settled
  rw [stepped] at performed
  cases performed
  exact kept

/-- **Consistency.** From a new address manager, permitted calls never make an assertion fail,
and after each of them `Check_` finds nothing and `Serialize` goes through. -/
theorem checked_of_run {nKey : UInt256} (keyed : nKey ≠ 0) {actions : List AddrManAction}
    (meets : RunMeets env.step CAddrMan.Permits actions (.construct nKey)) :
    (run env.step actions (.construct nKey)).isSome ∧
      RunStays env.step (fun man => man.Checked env ∧ man.serialize.isSome) actions
        (.construct nKey) := by
  obtain ⟨performed, stays⟩ := meets.performed (·.Settled env)
    (fun _ _ permitted settled => env.step_settled permitted settled)
    (CAddrMan.settled_construct keyed)
  exact ⟨performed, stays.imp fun _ settled =>
    ⟨CAddrMan.checked_of_settled settled, CAddrMan.serialize_isSome settled⟩⟩

def sample : AddrEnv where
  getLow64 _ := 0
  getGroup _ := []
  isRoutable _ := true

def sampleService (byte : UInt8) : CService := ⟨List.replicate 15 0 ++ [byte], 56740⟩

/-- Two addresses that are tried one after the other, and a third that finds the place of the
first in the new table taken. -/
def sampleActions : List AddrManAction :=
  [.clear 7, .add { service := sampleService 1 } [] 0 100000000 100000000 0,
    .good (sampleService 1) 100000000 5,
    .add { service := sampleService 2 } [] 0 100000000 100000000 0,
    .good (sampleService 2) 100000001 5,
    .add { service := sampleService 3 } [] 0 100000000 100000000 0,
    .attempt (sampleService 1) 100000002, .connected (sampleService 2) 100005000,
    .getAddr (fun _ => 100000000) (fun n => n + 1) []]

theorem checked_of_run_sample : (run sample.step sampleActions (.construct 5)).isSome ∧
    RunStays sample.step (fun man => man.Checked sample ∧ man.serialize.isSome) sampleActions
      (.construct 5) :=
  sample.checked_of_run (by decide) (by decide +kernel)

/-- What `Clear` makes of an address manager with one address. -/
def clearedSample : CAddrMan :=
  (run sample.step [.add { service := sampleService 1 } [] 0 100000000 100000000 0, .clear 7]
    (.construct 5)).getD (.construct 5)

/-- After an address was added, `Clear` leaves its entry without a position, and `Serialize`
fails. -/
theorem not_checked_sample :
    run sample.step [.add { service := sampleService 1 } [] 0 100000000 100000000 0, .clear 7]
        (.construct 5) = some clearedSample ∧
      ¬clearedSample.Checked sample ∧ clearedSample.serialize.isNone := by
  have performed : (run sample.step
      [.add { service := sampleService 1 } [] 0 100000000 100000000 0, .clear 7]
      (.construct 5)).isSome := by
    decide +kernel
  obtain ⟨after, runs⟩ := isSome_iff_exists.mp performed
  refine ⟨by rw [clearedSample, runs, Option.getD_some], fun checked => ?_, by decide +kernel⟩
  have present : (clearedSample.mapInfo.lookup 0).isSome := by decide +kernel
  obtain ⟨info, known⟩ := isSome_iff_exists.mp present
  obtain ⟨pos, -, inPlace⟩ := checked.positions 0 info known
  cases inPlace

end AddrEnv

end DogeCash
