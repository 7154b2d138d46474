import DogeCash.Network.AddrManWritten

/-! # The address manager over a restart

An address manager that passes `Check_` is written and read into another one. What comes out is the
same up to the ids, if nothing is left in the maps of the other one that `Clear` should have
removed: no entries with ids that are not given again, and no references, marks or bad times in
those that are.
-/

namespace DogeCash

open Option (isSome_iff_exists map_eq_some_iff map_some)
open List (countP_map length_map length_range mem_map mem_range)
open CAddrInfo (fInTried getBucketPosition)
open AList (lookup_isSome)

namespace CAddrMan

/-! ## Pruning -/

variable {man after : CAddrMan}

theorem swapRandom_nNew {first second : ℕ} (swapped : man.swapRandom first second = some after) :
    after.nNew = man.nNew := by
  unfold swapRandom at swapped
  split at swapped
  · cases swapped
    rfl
  · split at swapped
    · split at swapped
      · cases swapped
        rfl
      · cases swapped
    · cases swapped

theorem delete_nNew {id : Int} (deleted : man.delete id = some after) :
    after.nNew = man.nNew - 1 := by
  unfold delete at deleted
  split at deleted
  · cases deleted
  · split at deleted
    · cases deleted
    · obtain ⟨swapped, ok, rfl⟩ := map_eq_some_iff.mp deleted
      rw [← swapRandom_nNew ok]

theorem prune_eq_self {man : CAddrMan}
    (kept : ∀ id info, man.mapInfo.lookup id = some info →
      ¬(info.fInTried = false ∧ info.nRefCount = 0)) : man.prune = some man := by
  unfold prune
  have all : ∀ entry ∈ man.sortedInfos,
      ¬((man.info entry.1).fInTried = false ∧ (man.info entry.1).nRefCount = 0) := by
    intro entry mem
    have known := PassesCheck.mem_sortedInfos.mp mem
    rw [info_eq known]
    exact kept entry.1 entry.2 known
  generalize man.sortedInfos = entries at all ⊢
  induction entries with
  | nil => rfl
  | cons entry rest ih =>
    obtain ⟨first, others⟩ := List.forall_mem_cons.mp all
    rw [List.foldlM_cons, if_neg first]
    exact ih others

theorem eq_of_prune (pruned : man.prune = some after) (same : after.nNew = man.nNew) :
    after = man := by
  suffices fewer : ∀ (entries : List (Sigma fun _ : Int => CAddrInfo)) (man : CAddrMan),
      entries.foldlM (fun man entry =>
        if (man.info entry.1).fInTried = false ∧ (man.info entry.1).nRefCount = 0 then
          man.delete entry.1
        else some man) man = some after →
      after.nNew ≤ man.nNew ∧ (after.nNew = man.nNew → after = man) from
    (fewer _ man pruned).2 same
  intro entries
  induction entries with
  | nil =>
    intro man runs
    cases runs
    exact ⟨le_rfl, fun _ => rfl⟩
  | cons entry rest ih =>
    intro man runs
    rw [List.foldlM_cons] at runs
    obtain ⟨next, step, later⟩ := Option.bind_eq_some_iff.mp runs
    obtain ⟨fewer, exact⟩ := ih next later
    split_ifs at step with unreferenced
    · have less := delete_nNew step
      exact ⟨by omega, fun equal => by omega⟩
    · cases step
      exact ⟨fewer, exact⟩

end CAddrMan

/-! ## What comes out -/

/-- The fields that are written are the same. -/
structure CAddrInfo.SameWritten (info other : CAddrInfo) : Prop where
  address : info.toCAddress = other.toCAddress
  source : info.source = other.source
  nLastSuccess : info.nLastSuccess = other.nLastSuccess
  nAttempts : info.nAttempts = other.nAttempts

namespace CAddrInfo.SameWritten

variable {info other : CAddrInfo} (same : info.SameWritten other) (env : AddrEnv) (nKey : UInt256)
include same

theorem triedPlace : info.triedPlace env nKey = other.triedPlace env nKey := by
  simp only [CAddrInfo.triedPlace, CAddrInfo.getTriedBucket, getBucketPosition,
    CAddress.netAddr, same.address]

theorem newPlace (bucket : Fin newBucketCount) :
    info.newPlace env nKey bucket = other.newPlace env nKey bucket := by
  simp only [CAddrInfo.newPlace, getBucketPosition, same.address]

end CAddrInfo.SameWritten

namespace CAddrMan

/-- The entries and their places are the same under other ids, with the same mark of a tried entry
and the same fields that are written. -/
structure Renumbers (renumber : Int → Int) (man after : CAddrMan) : Prop where
  empty : renumber (-1) = -1
  injective : Set.InjOn renumber {id | id ∈ man.mapInfo ∨ id = -1}
  kept : ∀ id info, man.mapInfo.lookup id = some info → ∃ other,
    after.mapInfo.lookup (renumber id) = some other ∧ other.SameWritten info ∧
      other.fInTried = info.fInTried
  covers : ∀ id ∈ after.mapInfo, ∃ old ∈ man.mapInfo, renumber old = id
  vvNew : ∀ place, after.vvNew place = renumber (man.vvNew place)
  vvTried : ∀ place, after.vvTried place = renumber (man.vvTried place)

/-- An address manager is restored in another one. -/
structure Restored (env : AddrEnv) (man after : CAddrMan) : Prop where
  passes : after.PassesCheck env
  nKey : after.nKey = man.nKey
  nNew : after.nNew = man.nNew
  nTried : after.nTried = man.nTried
  renumbers : ∃ renumber, Renumbers renumber man after

/-- The entries of the target have ids that are given again, and those with the ids of new entries
are not marked as tried, have no references, and were last tried at no negative time. -/
def Harmless (nNew nTried : Int) (target : CAddrMan) : Prop :=
  ∀ id info, target.mapInfo.lookup id = some info → 0 ≤ id ∧ id < nNew + nTried ∧
    (id < nNew → info.fInTried = false ∧ info.nRefCount = 0 ∧ 0 ≤ info.nLastTry)

def givenIds (man : CAddrMan) : List Int := (List.range man.writtenEntries.length).map Nat.cast

theorem nodup_givenIds (man : CAddrMan) : man.givenIds.Nodup :=
  List.nodup_range.map Nat.cast_injective

namespace PassesCheck

variable {env : AddrEnv} {man target before after : CAddrMan}

theorem mem_givenIds (passes : man.PassesCheck env) {id : Int} :
    id ∈ man.givenIds ↔ 0 ≤ id ∧ id < man.nNew + man.nTried := by
  rw [← passes.length_writtenEntries, givenIds, mem_map]
  constructor
  · rintro ⟨n, inside, rfl⟩
    exact ⟨Int.natCast_nonneg n, Int.ofNat_lt.mpr (mem_range.mp inside)⟩
  · intro range
    exact ⟨id.toNat, mem_range.mpr (by omega), Int.toNat_of_nonneg range.1⟩

section

variable (passes : man.PassesCheck env) (entered : Entered env target man.written before)
  (grown : Grown before after)
include passes entered grown

omit passes in
theorem lookup_after {n : ℕ} {entry : Sigma fun _ : Int => CAddrInfo}
    (found : man.writtenEntries[n]? = some entry) :
    after.mapInfo.lookup (n : Int) =
      some (let info := if n < man.newEntries.length then newInfo target (entry.2, n)
          else triedInfo (entry.2, n)
        { info with nRefCount := info.nRefCount + occurrences after.vvNew (n : Int) }) := by
  rw [grown.lookup n (by omega), lookup_entered entered found, map_some]

variable {id : Int}

theorem mem_after_iff (other : id ∉ man.givenIds) : id ∈ after.mapInfo ↔ id ∈ target.mapInfo := by
  have stays : before.mapInfo.lookup id = target.mapInfo.lookup id := by
    refine entered.loaded.others id fun n inside same => other ?_
    have length := @length_loadedInfos env man target passes
    rw [passes.mem_givenIds]
    omega
  rw [← lookup_isSome, ← lookup_isSome, ← stays]
  by_cases empty : id = -1
  · rw [empty, grown.empty]
  · rw [grown.lookup id empty, Option.isSome_map]

omit passes in
theorem mem_of_givenIds (given : id ∈ man.givenIds) : id ∈ after.mapInfo := by
  obtain ⟨n, inside, rfl⟩ := mem_map.mp given
  have found := List.getElem?_eq_getElem (mem_range.mp inside)
  exact mem_mapInfo (lookup_after entered grown found)

section

variable (checked : after.PassesCheck env)
include checked

section

variable (nNew : after.nNew = man.nNew)
include nNew

section

variable (nTried : after.nTried = man.nTried)
include nTried

theorem mem_givenIds_of_checked (present : id ∈ after.mapInfo) : id ∈ man.givenIds := by
  refine KeyedMap.mem_keys_of_length man.nodup_givenIds
    (fun _ given => mem_of_givenIds entered grown given) ?_ present
  have total := List.length_eq_countP_add_countP
    (fun entry : Sigma fun _ : Int => CAddrInfo => entry.2.fInTried) (l := after.mapInfo.entries)
  have new := checked.nNew
  have tried := checked.nTried
  have length := passes.length_writtenEntries
  rw [givenIds, length_map, length_range]
  simp only [Bool.not_eq_true, Bool.decide_eq_false] at total
  omega

theorem not_tried_of_checked {n : ℕ} (new : n < man.newEntries.length) :
    ¬((after.mapInfo.lookup (n : Int)).any fInTried = true) := by
  let inTried : Int → Bool := fun id => (after.mapInfo.lookup id).any fInTried
  have counted : (man.givenIds.countP inTried : ℕ) = man.nTried := by
    rw [← nTried, checked.nTried, KeyedMap.countP_entries man.nodup_givenIds (fun id =>
      ⟨passes.mem_givenIds_of_checked entered grown checked nNew nTried,
        mem_of_givenIds entered grown⟩) fInTried]
  have split : man.givenIds = (List.range man.newEntries.length).map Nat.cast ++
      (List.range man.triedEntries.length).map fun k =>
        ((man.newEntries.length + k : ℕ) : Int) := by
    rw [givenIds, writtenEntries, List.length_append, List.range_add, List.map_append, List.map_map]
    rfl
  have tried : ((List.range man.triedEntries.length).map fun k =>
      ((man.newEntries.length + k : ℕ) : Int)).countP inTried = man.triedEntries.length := by
    refine (List.countP_eq_length.mpr fun id mem => ?_).trans (by
      rw [length_map, length_range])
    obtain ⟨k, inside, rfl⟩ := mem_map.mp mem
    have bound : man.newEntries.length + k < man.writtenEntries.length := by
      rw [writtenEntries, List.length_append]
      exact Nat.add_lt_add_left (mem_range.mp inside) _
    have known := lookup_after entered grown (List.getElem?_eq_getElem bound)
    rw [if_neg (by omega)] at known
    change (after.mapInfo.lookup _).any fInTried = true
    rw [known]
    rfl
  have none : ((List.range man.newEntries.length).map (Nat.cast : ℕ → Int)).countP inTried = 0 := by
    rw [split, List.countP_append, tried] at counted
    have length := passes.length_triedEntries
    omega
  exact List.countP_eq_zero.mp none n (List.mem_map_of_mem (mem_range.mpr new))

theorem harmless_of_checked : Harmless man.nNew man.nTried target := by
  intro id info known
  have given : id ∈ man.givenIds := by
    by_contra other
    exact other (passes.mem_givenIds_of_checked entered grown checked nNew nTried
      ((passes.mem_after_iff entered grown other).mpr (mem_mapInfo known)))
  obtain ⟨low, high⟩ := passes.mem_givenIds.mp given
  refine ⟨low, high, fun new => ?_⟩
  obtain ⟨n, rfl⟩ := Int.eq_ofNat_of_zero_le low
  have few := passes.length_newEntries
  have length := passes.length_writtenEntries
  have first : n < man.newEntries.length := by omega
  have inside : n < man.writtenEntries.length := by omega
  have here := lookup_after entered grown (List.getElem?_eq_getElem inside)
  have notTried := passes.not_tried_of_checked entered grown checked nNew nTried first
  have stale : target.info n = info := info_eq known
  rw [if_pos first, newInfo, stale] at here
  rw [here] at notTried
  have mark : info.fInTried = false := Bool.not_eq_true _ ▸ notTried
  have count := checked.newCount _ _ here mark
  have time := checked.lastTry _ _ here
  change (occurrences after.vvNew (n : Int) : Int) =
    info.nRefCount + occurrences after.vvNew (n : Int) at count
  exact ⟨mark, by omega, time⟩

end

end

end

end

/-- An entry as it is put in under a number, when the target was harmless. -/
structure Matches (n : ℕ) (entry info : CAddrInfo) : Prop where
  same : info.SameWritten entry
  inTried : info.fInTried = entry.fInTried
  nRefCount : info.nRefCount = entry.nRefCount
  lastTry : 0 ≤ info.nLastTry
  position : info.nRandomPos = n

theorem info_of_harmless {nNew nTried : Int} (harmless : Harmless nNew nTried target) {id : Int}
    (new : id < nNew) : (target.info id).fInTried = false ∧ (target.info id).nRefCount = 0 ∧
      0 ≤ (target.info id).nLastTry := by
  rw [info]
  cases known : target.mapInfo.lookup id with
  | none => exact ⟨rfl, rfl, le_rfl⟩
  | some info => exact (harmless id info known).2.2 new

section

variable (passes : man.PassesCheck env) (entered : Entered env target man.written before)
  (grown : Grown before after) (harmless : Harmless man.nNew man.nTried target)
  (moved : ∀ place, after.vvNew place = man.renumbered (man.vvNew place))
include passes entered grown harmless moved

omit entered grown harmless in
theorem occurrences_after {n : ℕ} {entry : Sigma fun _ : Int => CAddrInfo}
    (found : man.writtenEntries[n]? = some entry) :
    (occurrences after.vvNew (n : Int) : Int) = entry.2.nRefCount := by
  have known := passes.mem_writtenEntries.mp (List.mem_of_getElem? found)
  have same : occurrences after.vvNew (n : Int) = occurrences man.vvNew entry.1 := by
    refine occurrences_congr fun place => ?_
    rw [moved, ← passes.renumbered_of_getElem? found]
    refine ⟨fun equal => ?_, congrArg _⟩
    have taken : man.vvNew place ≠ -1 := by
      intro empty
      have number := passes.renumbered_of_getElem? found
      rw [empty, renumbered_empty] at equal
      omega
    obtain ⟨info, there, -⟩ := passes.newPlaces place taken
    exact passes.renumbered_injective there known equal
  rw [same, passes.occurrences_eq known]

theorem lookup_matches {n : ℕ} {entry : Sigma fun _ : Int => CAddrInfo}
    (found : man.writtenEntries[n]? = some entry) :
    ∃ info, after.mapInfo.lookup (n : Int) = some info ∧ Matches n entry.2 info := by
  have count := passes.occurrences_after moved found
  have here := lookup_after entered grown found
  have place := passes.number_lt_iff found
  split_ifs at here with first
  · have new := place.mp first
    have below : (n : Int) < man.nNew := by
      rw [← passes.length_newEntries]
      exact Int.ofNat_lt.mpr first
    obtain ⟨mark, references, time⟩ := info_of_harmless harmless below
    refine ⟨_, here, ⟨rfl, rfl, rfl, rfl⟩, mark.trans new.symm, ?_, time, rfl⟩
    change (target.info n).nRefCount + _ = _
    rw [references, zero_add, count]
  · have tried : entry.2.fInTried = true := by
      rw [← Bool.not_eq_false]
      exact fun new => first (place.mpr new)
    refine ⟨_, here, ⟨rfl, rfl, rfl, rfl⟩, tried.symm, ?_, le_rfl, rfl⟩
    change 0 + _ = _
    rw [zero_add, count]

theorem exists_written {id : Int} {info : CAddrInfo}
    (known : after.mapInfo.lookup id = some info) :
    ∃ (n : ℕ) (entry : Sigma fun _ : Int => CAddrInfo), id = n ∧
      man.writtenEntries[n]? = some entry ∧ Matches n entry.2 info := by
  have given : id ∈ man.givenIds := by
    by_contra other
    have there := (passes.mem_after_iff entered grown other).mp (mem_mapInfo known)
    obtain ⟨old, oldKnown⟩ := isSome_iff_exists.mp (lookup_isSome.mpr there)
    obtain ⟨low, high, -⟩ := harmless id old oldKnown
    exact other (passes.mem_givenIds.mpr ⟨low, high⟩)
  obtain ⟨n, inside, rfl⟩ := mem_map.mp given
  have found := List.getElem?_eq_getElem (mem_range.mp inside)
  obtain ⟨there, here, is⟩ := passes.lookup_matches entered grown harmless moved found
  rw [known, Option.some_inj] at here
  exact ⟨n, _, rfl, found, here ▸ is⟩

theorem countP_after (picks : CAddrInfo → Bool)
    (agrees : ∀ n entry info, Matches n entry info → picks info = picks entry) :
    after.mapInfo.entries.countP (fun entry => picks entry.2) =
      man.mapInfo.entries.countP fun entry => picks entry.2 := by
  have ids : ∀ id, id ∈ after.mapInfo ↔ id ∈ man.givenIds := by
    intro id
    refine ⟨fun present => ?_, mem_of_givenIds entered grown⟩
    obtain ⟨info, known⟩ := isSome_iff_exists.mp (lookup_isSome.mpr present)
    obtain ⟨n, entry, rfl, found, -⟩ := passes.exists_written entered grown harmless moved known
    exact List.mem_map_of_mem (mem_range.mpr (List.getElem?_eq_some_iff.mp found).1)
  have values : (List.range man.writtenEntries.length).map
        (fun n : ℕ => (after.mapInfo.lookup (n : Int)).any picks) =
      man.writtenEntries.map fun entry => picks entry.2 := by
    refine List.ext_getElem (by simp) fun n inside _ => ?_
    rw [length_map, length_range] at inside
    obtain ⟨info, known, is⟩ := passes.lookup_matches entered grown harmless moved
      (List.getElem?_eq_getElem inside)
    rw [List.getElem_map, List.getElem_range, known, List.getElem_map]
    exact agrees n _ info is
  rw [KeyedMap.countP_entries man.nodup_givenIds ids picks, givenIds, countP_map,
    ← passes.writtenEntries_perm.countP_eq]
  have counts := congrArg (List.countP id) values
  rw [countP_map, countP_map] at counts
  exact counts

omit harmless moved in
theorem vvTried_after (place : TriedPlace) :
    after.vvTried place = man.renumbered (man.vvTried place) := by
  have same : after.vvTried = before.vvTried := by rw [grown.rest]
  rw [same]
  by_cases taken : man.vvTried place = -1
  · rw [taken, renumbered_empty]
    by_contra other
    obtain ⟨info, mem, there⟩ := entered.tried.2 place other
    obtain ⟨entry, inside, rfl⟩ := mem_map.mp mem
    obtain ⟨known, tried⟩ := lookup_of_triedEntries inside
    have holds := passes.vvTried_triedPlace known tried
    rw [entered.nKey] at there
    change entry.2.triedPlace env man.nKey = place at there
    rw [there, taken] at holds
    exact passes.ne_of_known known holds.symm
  · obtain ⟨info, known, tried, there⟩ := passes.triedPlaces place taken
    obtain ⟨n, found, number⟩ := passes.exists_number known
    have later : ¬n < man.newEntries.length := by
      rw [passes.number_lt_iff found, tried]
      exact Bool.noConfusion
    rw [writtenEntries, List.getElem?_append_right (not_lt.mp later)] at found
    have stored : man.written.triedInfos[n - man.newEntries.length]? = some info := by
      change (man.triedEntries.map Sigma.snd)[_]? = _
      rw [List.getElem?_map, found]
      rfl
    have holds := entered.tried.1 _ info stored
    have length : man.written.newInfos.length = man.newEntries.length := length_map ..
    rw [entered.nKey, length, Nat.add_sub_cancel' (not_lt.mp later)] at holds
    change before.vvTried (info.triedPlace env man.nKey) = _ at holds
    rw [there] at holds
    rw [holds, number]

theorem passes_after : after.PassesCheck env := by
  have written : ∀ {id info}, after.mapInfo.lookup id = some info →
      ∃ (n : ℕ) (entry : Sigma fun _ : Int => CAddrInfo), id = n ∧
        man.writtenEntries[n]? = some entry ∧ Matches n entry.2 info ∧
          man.mapInfo.lookup entry.1 = some entry.2 := by
    intro id info known
    obtain ⟨n, entry, same, found, is⟩ := passes.exists_written entered grown harmless moved known
    exact ⟨n, entry, same, found, is, passes.mem_writtenEntries.mp (List.mem_of_getElem? found)⟩
  have nKey : after.nKey = man.nKey := grown.nKey.trans entered.nKey
  have nNew : after.nNew = man.nNew := grown.nNew.trans entered.nNew
  have nTried : after.nTried = man.nTried := by rw [grown.rest, entered.nTried]; rfl
  have length : (loadedInfos target man.written).length = man.writtenEntries.length := by
    have infos := @length_loadedInfos env man target passes
    have entries := passes.length_writtenEntries
    omega
  have order : after.vRandom = man.givenIds := by
    have kept : after.vRandom = before.vRandom := by rw [grown.rest]
    rw [kept, entered.loaded.order, length, givenIds]
  have mapAddr : after.mapAddr = before.mapAddr := by rw [grown.rest]
  have vvTried := passes.vvTried_after entered grown
  refine
    { succeeded := ?succeeded
      unreferenced := ?unreferenced
      referenced := ?referenced
      addresses := ?addresses
      lastTry := fun id info known => ?lastTry
      size := ?size
      lastSuccess := ?lastSuccess
      nTried := ?nTried
      nNew := ?nNew
      triedPlaces := ?triedPlaces
      triedOnce := ?triedOnce
      newPlaces := ?newPlaces
      newCount := ?newCount
      noEntry := ?noEntry
      positions := ?positions
      keyed := nKey ▸ passes.keyed }
  case succeeded =>
    intro id info known tried
    obtain ⟨n, entry, -, -, is, there⟩ := written known
    rw [is.same.nLastSuccess]
    exact passes.succeeded _ _ there (is.inTried ▸ tried)
  case unreferenced =>
    intro id info known tried
    obtain ⟨n, entry, -, -, is, there⟩ := written known
    rw [is.nRefCount]
    exact passes.unreferenced _ _ there (is.inTried ▸ tried)
  case referenced =>
    intro id info known new
    obtain ⟨n, entry, -, -, is, there⟩ := written known
    rw [is.nRefCount]
    exact passes.referenced _ _ there (is.inTried ▸ new)
  case addresses =>
    intro id info known
    obtain ⟨n, entry, rfl, found, is, -⟩ := written known
    have stored := entered.loaded.byAddr n _ (getElem?_loadedInfos found)
    have address : (if n < man.newEntries.length then newInfo target (entry.2, n)
        else triedInfo (entry.2, n)).netAddr = info.netAddr := by
      rw [CAddress.netAddr, CAddress.netAddr, is.same.address]
      split_ifs <;> rfl
    rw [mapAddr, ← address, stored]
    rfl
  case lastTry =>
    obtain ⟨n, entry, -, -, is, -⟩ := written known
    exact is.lastTry
  case size =>
    have entries := passes.length_writtenEntries
    rw [order, givenIds, length_map, length_range, nTried, nNew, entries, add_comm]
  case lastSuccess =>
    intro id info known
    obtain ⟨n, entry, -, -, is, there⟩ := written known
    rw [is.same.nLastSuccess]
    exact passes.lastSuccess _ _ there
  case nTried =>
    rw [nTried, passes.nTried, passes.countP_after entered grown harmless moved
      fInTried fun _ _ _ is => is.inTried]
  case nNew =>
    rw [nNew, passes.nNew, passes.countP_after entered grown harmless moved
      (fun info => !info.fInTried) fun _ _ _ is => by rw [is.inTried]]
  case triedPlaces =>
    intro place occupied
    rw [vvTried] at occupied ⊢
    have taken : man.vvTried place ≠ -1 := fun empty => occupied (by rw [empty, renumbered_empty])
    obtain ⟨info, known, tried, there⟩ := passes.triedPlaces place taken
    obtain ⟨n, found, number⟩ := passes.exists_number known
    obtain ⟨other, here, is⟩ := passes.lookup_matches entered grown harmless moved found
    rw [number, nKey]
    exact ⟨other, here, is.inTried.trans tried, (is.same.triedPlace env man.nKey).trans there⟩
  case triedOnce =>
    intro id info known tried
    obtain ⟨n, entry, rfl, found, is, there⟩ := written known
    have number := passes.renumbered_of_getElem? found
    obtain ⟨place, holds, only⟩ := passes.triedOnce _ _ there (is.inTried ▸ tried)
    refine ⟨place, (vvTried place).trans (by rw [holds, number]), fun other same => only other ?_⟩
    replace same : after.vvTried other = (n : Int) := same
    rw [vvTried, ← number] at same
    have taken : man.vvTried other ≠ -1 := by
      intro empty
      rw [empty, renumbered_empty, number] at same
      omega
    obtain ⟨otherInfo, otherKnown, -⟩ := passes.triedPlaces other taken
    exact passes.renumbered_injective otherKnown there same
  case newPlaces =>
    intro place occupied
    rw [moved] at occupied ⊢
    have taken : man.vvNew place ≠ -1 := fun empty => occupied (by rw [empty, renumbered_empty])
    obtain ⟨info, known, new, there⟩ := passes.newPlaces place taken
    obtain ⟨n, found, number⟩ := passes.exists_number known
    obtain ⟨other, here, is⟩ := passes.lookup_matches entered grown harmless moved found
    rw [number, nKey]
    exact ⟨other, here, is.inTried.trans new, (is.same.newPlace env man.nKey place.1).trans there⟩
  case newCount =>
    intro id info known _
    obtain ⟨n, entry, rfl, found, is, -⟩ := written known
    rw [is.nRefCount]
    exact passes.occurrences_after moved found
  case noEntry =>
    rw [Option.eq_none_iff_forall_ne_some]
    intro info known
    obtain ⟨n, entry, same, -⟩ := written known
    omega
  case positions =>
    intro id info known
    obtain ⟨n, entry, rfl, found, is, -⟩ := written known
    have inside := (List.getElem?_eq_some_iff.mp found).1
    refine ⟨n, is.position, ?_⟩
    rw [order, givenIds, List.getElem?_map, List.getElem?_range inside]
    rfl

theorem renumbers_after : Renumbers man.renumbered man after where
  empty := renumbered_empty
  injective := by
    intro id here other there same
    rcases here with present | rfl
    · obtain ⟨info, known⟩ := isSome_iff_exists.mp (lookup_isSome.mpr present)
      obtain ⟨n, -, number⟩ := passes.exists_number known
      rcases there with otherPresent | rfl
      · obtain ⟨otherInfo, otherKnown⟩ := isSome_iff_exists.mp (lookup_isSome.mpr otherPresent)
        exact passes.renumbered_injective known otherKnown same
      · rw [renumbered_empty] at same
        omega
    · rw [renumbered_empty] at same
      rcases there with otherPresent | rfl
      · obtain ⟨otherInfo, otherKnown⟩ := isSome_iff_exists.mp (lookup_isSome.mpr otherPresent)
        obtain ⟨n, -, number⟩ := passes.exists_number otherKnown
        omega
      · rfl
  kept := by
    intro id info known
    obtain ⟨n, found, number⟩ := passes.exists_number known
    obtain ⟨other, here, is⟩ := passes.lookup_matches entered grown harmless moved found
    exact ⟨other, number ▸ here, is.same, is.inTried⟩
  covers := by
    intro id present
    obtain ⟨info, known⟩ := isSome_iff_exists.mp (lookup_isSome.mpr present)
    obtain ⟨n, entry, rfl, found, -⟩ := passes.exists_written entered grown harmless moved known
    exact ⟨entry.1, mem_mapInfo (passes.mem_writtenEntries.mp (List.mem_of_getElem? found)),
      passes.renumbered_of_getElem? found⟩
  vvNew := moved
  vvTried := passes.vvTried_after entered grown

end

theorem restored_iff (passes : man.PassesCheck env) (randomKey : UInt256) (target : CAddrMan) :
    (∃ after, (reload env man.written randomKey target).prune = some after ∧
      Restored env man after) ↔ Harmless man.nNew man.nTried target := by
  obtain ⟨before, entered, grown, moved⟩ := passes.exists_reload randomKey target
  have nNew : (reload env man.written randomKey target).nNew = man.nNew :=
    grown.nNew.trans entered.nNew
  constructor
  · rintro ⟨after, pruned, restored⟩
    have same := eq_of_prune pruned (restored.nNew.trans nNew.symm)
    rw [← same] at grown
    exact passes.harmless_of_checked entered grown restored.passes restored.nNew restored.nTried
  · intro harmless
    have unreferenced : Unreferenced man target := fun id _ new =>
      (info_of_harmless harmless new).2.1
    have placed := moved unreferenced
    have after := passes.passes_after entered grown harmless placed
    refine ⟨_, prune_eq_self fun id info known unused => ?_, ⟨after, ?_, nNew, ?_,
      _, passes.renumbers_after entered grown harmless placed⟩⟩
    · have one := (after.referenced id info known unused.1).1
      omega
    · exact grown.nKey.trans entered.nKey
    · rw [grown.rest, entered.nTried]
      rfl

theorem unserialize_written (passes : man.PassesCheck env) (fits : man.Fits)
    (randomKey : UInt256) (target : CAddrMan) :
    unserialize env randomKey target man.written.bytes =
      (reload env man.written randomKey target).prune.map fun after => (after, []) := by
  have read := parses_unserialize (passes.fits_written fits) env randomKey target []
  rwa [List.append_nil] at read

end PassesCheck

end CAddrMan

namespace AddrEnv

open CAddrMan

/-- **Restart.** What an address manager that passes `Check_` writes is read to its end by another
one and restores it there, up to the ids, if and only if what the other one has left in its maps is
harmless. -/
theorem restart_restores_iff (env : AddrEnv) {man : CAddrMan} (passes : man.PassesCheck env)
    (fits : man.Fits) (randomKey : UInt256) (target : CAddrMan) :
    ∃ written, man.serialize = some written ∧
      ((∃ after, unserialize env randomKey target written.bytes = some (after, []) ∧
        Restored env man after) ↔ Harmless man.nNew man.nTried target) := by
  refine ⟨man.written, passes.serialize_eq, ?_⟩
  rw [passes.unserialize_written fits, ← passes.restored_iff randomKey target]
  constructor
  · rintro ⟨after, read, restored⟩
    obtain ⟨other, pruned, same⟩ := map_eq_some_iff.mp read
    cases same
    exact ⟨after, pruned, restored⟩
  · rintro ⟨after, pruned, restored⟩
    exact ⟨after, by rw [pruned, map_some], restored⟩

def savedActions : List AddrManAction :=
  [.add { service := sampleService 1 } (List.replicate 16 0) 0 100000000 100000000 0,
    .good (sampleService 1) 100000000 5,
    .add { service := sampleService 2 } (List.replicate 16 0) 0 100000000 100000000 0]

def savedSample : CAddrMan := (run sample.step savedActions (.construct 5)).getD (.construct 5)

theorem run_savedActions : run sample.step savedActions (.construct 5) = some savedSample := by
  have performed : (run sample.step savedActions (.construct 5)).isSome := by decide +kernel
  obtain ⟨after, runs⟩ := isSome_iff_exists.mp performed
  rw [savedSample, runs, Option.getD_some]

theorem settled_savedSample : savedSample.Settled sample :=
  sample.settled_after_run (by decide) (by decide +kernel) run_savedActions

theorem fits_savedSample : savedSample.Fits := by
  have entries : ∀ entry ∈ savedSample.mapInfo.entries, entry.2.Fits := by decide +kernel
  exact ⟨by decide +kernel, by decide +kernel, fun id info known =>
    entries ⟨id, info⟩ (AList.mem_lookup_iff.mp known)⟩

theorem restart_restores_iff_sample : ∃ written, savedSample.serialize = some written ∧
    ((∃ after, unserialize sample 7 (construct 11) written.bytes = some (after, []) ∧
        Restored sample savedSample after) ↔
      Harmless savedSample.nNew savedSample.nTried (construct 11)) :=
  sample.restart_restores_iff (passesCheck_of_settled settled_savedSample) fits_savedSample 7
    (construct 11)

/-- An empty address manager is not restored in one that has entries. -/
theorem not_restored_sample : (construct 5).PassesCheck sample ∧ (construct 5).Fits ∧
    ∃ written, (construct 5).serialize = some written ∧
      ¬∃ after, unserialize sample 7 savedSample written.bytes = some (after, []) ∧
        Restored sample (construct 5) after := by
  have passes : (construct 5).PassesCheck sample :=
    passesCheck_of_settled (settled_construct (by decide))
  have fits : (construct 5).Fits := by
    refine ⟨by decide, by decide, fun id info known => ?_⟩
    cases known
  refine ⟨passes, fits, (construct 5).written, passes.serialize_eq, ?_⟩
  rintro ⟨after, read, restored⟩
  rw [passes.unserialize_written fits] at read
  obtain ⟨other, pruned, same⟩ := map_eq_some_iff.mp read
  cases same
  have harmless := (passes.restored_iff 7 savedSample).mp ⟨after, pruned, restored⟩
  have present : (savedSample.mapInfo.lookup 0).isSome := by decide +kernel
  obtain ⟨info, known⟩ := isSome_iff_exists.mp present
  have bound : (0 : Int) < 0 + 0 := (harmless 0 info known).2.1
  omega

end AddrEnv

end DogeCash
