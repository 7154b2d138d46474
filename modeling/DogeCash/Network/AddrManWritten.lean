import DogeCash.Network.AddrManReload
import DogeCash.Network.AddrManRuns

/-! # What an address manager writes

An address manager that passes `Check_` writes every entry once, first the new ones and then the
tried ones. When they are read again, an entry gets its number in this order as its id, and the
places of the new table get what they had under the new ids, if the references of the entries that
are read into start at 0.
-/

namespace DogeCash

open List (countP_eq_length_filter foldl_map length_append length_map map_append map_cons map_map
  mem_cons mem_filter mem_map)
open Option (map_some some_inj)
open List (finRange)
open Sigma (fst snd)

namespace CAddrMan

/-- The conditions of `Check_` with its look into `mapAddr`, which puts a zero where there is
nothing. -/
structure PassesCheck (env : AddrEnv) (man : CAddrMan) : Prop extends CheckedTables env man where
  /-- -5 -/
  addresses : ∀ id info, man.mapInfo.lookup id = some info → (man.mapAddr info.netAddr).getD 0 = id
  /-- -13 and -15: the id of an empty place is found at no place. -/
  noEntry : man.mapInfo.lookup (-1) = none

variable {man : CAddrMan}

theorem passesCheck_of_settled {env : AddrEnv} (settled : man.Settled env) :
    man.PassesCheck env := by
  have checked := checked_of_settled settled
  have noEntry : man.mapInfo.lookup (-1) = none := by
    have absent := settled.tables.noEntry
    rwa [entries, Option.map_eq_none_iff] at absent
  exact { checked with
    addresses := fun id info known => by rw [checked.addresses id info known]; rfl
    noEntry := noEntry }

/-- The numbers and byte strings fit the types that they have. -/
structure Fits (man : CAddrMan) : Prop where
  nNew : man.nNew < 2 ^ 31
  nTried : man.nTried < 2 ^ 31
  infos : ∀ id info, man.mapInfo.lookup id = some info → info.Fits

/-! ## The order in which the entries are written -/

def newEntries (man : CAddrMan) : List (Sigma fun _ : Int => CAddrInfo) :=
  man.sortedInfos.filter fun entry => entry.2.nRefCount ≠ 0

def triedEntries (man : CAddrMan) : List (Sigma fun _ : Int => CAddrInfo) :=
  man.sortedInfos.filter fun entry => entry.2.fInTried

def writtenEntries (man : CAddrMan) : List (Sigma fun _ : Int => CAddrInfo) :=
  man.newEntries ++ man.triedEntries

def writtenIds (man : CAddrMan) : List Int := man.writtenEntries.map fst

def renumbered (man : CAddrMan) (id : Int) : Int :=
  if id = -1 then -1 else (man.writtenIds.idxOf id : ℕ)

def bucketIds (man : CAddrMan) (bucket : Fin newBucketCount) : List Int :=
  ((finRange bucketSize).map fun i => man.vvNew (bucket, i)).filter (· ≠ -1)

/-- What is written of an address manager that passes the check. -/
def written (man : CAddrMan) : Written where
  nKey := man.nKey
  nNew := man.nNew
  nTried := man.nTried
  nUBuckets := newBucketCount + 2 ^ 30
  newInfos := man.newEntries.map snd
  triedInfos := man.triedEntries.map snd
  buckets := (finRange newBucketCount).map fun bucket => (man.bucketIds bucket).map man.unkId

theorem exists_of_mem_buckets {bucket : List Int} (mem : bucket ∈ man.written.buckets) :
    ∃ number, (man.bucketIds number).map man.unkId = bucket := by
  simp only [written, mem_map] at mem
  obtain ⟨number, -, same⟩ := mem
  exact ⟨number, same⟩

theorem countP_takeWhile {picks : (Sigma fun _ : Int => CAddrInfo) → Bool} {id : Int}
    {info : CAddrInfo} (picked : picks ⟨id, info⟩ = true)
    {items : List (Sigma fun _ : Int => CAddrInfo)} (mem : ⟨id, info⟩ ∈ items)
    (distinct : (items.map fst).Nodup) :
    (items.takeWhile fun entry => entry.1 ≠ id).countP picks =
      ((items.filter picks).map fst).idxOf id := by
  induction items with
  | nil => cases mem
  | cons entry rest ih =>
    obtain ⟨absent, distinct⟩ := List.nodup_cons.mp distinct
    by_cases here : entry.1 = id
    · have same : entry = ⟨id, info⟩ := by
        rcases mem_cons.mp mem with same | later
        · exact same.symm
        · exact absurd (here ▸ List.mem_map_of_mem later) absent
      rw [same, List.takeWhile_cons_of_neg (by simp), List.filter_cons_of_pos picked,
        map_cons, List.idxOf_cons_self]
      rfl
    · have later : ⟨id, info⟩ ∈ rest := by
        refine (mem_cons.mp mem).resolve_left fun same => here ?_
        rw [← same]
      rw [List.takeWhile_cons_of_pos (by simpa using here), List.countP_cons, ih later distinct]
      by_cases counts : picks entry = true
      · rw [if_pos counts, List.filter_cons_of_pos counts, map_cons, List.idxOf_cons_ne _ here]
      · rw [if_neg counts, List.filter_cons_of_neg counts]
        rfl

namespace PassesCheck

variable {env : AddrEnv} {man : CAddrMan}

theorem mem_sortedInfos {entry : Sigma fun _ : Int => CAddrInfo} :
    entry ∈ man.sortedInfos ↔ man.mapInfo.lookup entry.1 = some entry.2 :=
  (List.perm_insertionSort _ _).mem_iff.trans KeyedMap.mem_entries_iff

theorem nodup_sortedInfos : (man.sortedInfos.map fst).Nodup :=
  ((List.perm_insertionSort _ _).map fst).nodup_iff.mpr man.mapInfo.nodupKeys

variable (passes : man.PassesCheck env)
include passes

variable {id : Int} {info : CAddrInfo}

theorem nRefCount_ne_zero (known : man.mapInfo.lookup id = some info) :
    info.nRefCount ≠ 0 ↔ info.fInTried = false := by
  cases tried : info.fInTried with
  | false =>
    have one := (passes.referenced id info known tried).1
    exact iff_of_true (by omega) rfl
  | true =>
    refine iff_of_false (not_not.mpr (passes.unreferenced id info known tried)) ?_
    exact Bool.noConfusion

theorem writtenEntries_perm : man.writtenEntries.Perm man.mapInfo.entries := by
  have split : man.writtenEntries =
      (man.sortedInfos.filter fun entry => decide (entry.2.nRefCount ≠ 0)) ++
        man.sortedInfos.filter fun entry => !decide (entry.2.nRefCount ≠ 0) := by
    refine congrArg (_ ++ ·) (List.filter_congr fun entry mem => ?_)
    rw [Bool.eq_iff_iff, Bool.not_eq_true', decide_eq_false_iff_not,
      passes.nRefCount_ne_zero (mem_sortedInfos.mp mem), Bool.not_eq_false]
  rw [split]
  exact (List.filter_append_perm _ _).trans (List.perm_insertionSort _ _)

theorem mem_writtenEntries {entry : Sigma fun _ : Int => CAddrInfo} :
    entry ∈ man.writtenEntries ↔ man.mapInfo.lookup entry.1 = some entry.2 :=
  passes.writtenEntries_perm.mem_iff.trans KeyedMap.mem_entries_iff

theorem nodup_writtenIds : man.writtenIds.Nodup :=
  (passes.writtenEntries_perm.map fst).nodup_iff.mpr man.mapInfo.nodupKeys

theorem length_triedEntries : (man.triedEntries.length : Int) = man.nTried := by
  rw [passes.nTried, triedEntries, ← countP_eq_length_filter,
    countP_sortedInfos man CAddrInfo.fInTried]

theorem length_newEntries : (man.newEntries.length : Int) = man.nNew := by
  rw [passes.nNew, newEntries, ← countP_eq_length_filter,
    ← countP_sortedInfos man fun info => !info.fInTried, Int.natCast_inj]
  refine List.countP_congr fun entry mem => ?_
  rw [decide_eq_true_eq, passes.nRefCount_ne_zero (mem_sortedInfos.mp mem), Bool.not_eq_true']

theorem serialize_eq : man.serialize = some man.written := by
  have new := @writeInfos_eq_some (fun info => decide (info.nRefCount ≠ 0)) man.nNew
    man.sortedInfos 0 (by
      rw [← passes.length_newEntries, newEntries, ← countP_eq_length_filter, zero_add])
  have tried := @writeInfos_eq_some CAddrInfo.fInTried man.nTried man.sortedInfos 0 (by
      rw [← passes.length_triedEntries, triedEntries, ← countP_eq_length_filter, zero_add])
  rw [serialize, new, Option.bind_some, tried]
  rfl

omit passes in
theorem lookup_of_triedEntries {entry : Sigma fun _ : Int => CAddrInfo}
    (mem : entry ∈ man.triedEntries) :
    man.mapInfo.lookup entry.1 = some entry.2 ∧ entry.2.fInTried = true := by
  obtain ⟨inside, tried⟩ := mem_filter.mp mem
  exact ⟨mem_sortedInfos.mp inside, tried⟩

theorem vvTried_triedPlace (known : man.mapInfo.lookup id = some info)
    (tried : info.fInTried = true) :
    man.vvTried (info.triedPlace env man.nKey) = id := by
  obtain ⟨place, holds, -⟩ := passes.triedOnce id info known tried
  have valid : man.vvTried place ≠ -1 := by
    rintro empty
    rw [← holds, empty, passes.noEntry] at known
    cases known
  obtain ⟨other, there, -, hashed⟩ := passes.triedPlaces place valid
  rw [holds, known, some_inj] at there
  rw [there, hashed, holds]

theorem nodup_netAddr :
    ((man.written.newInfos ++ man.written.triedInfos).map (·.netAddr)).Nodup := by
  refine List.Nodup.of_map (fun netAddr => (man.mapAddr netAddr).getD 0) ?_
  have ids : ((man.written.newInfos ++ man.written.triedInfos).map (·.netAddr)).map
      (fun netAddr => (man.mapAddr netAddr).getD 0) = man.writtenIds := by
    change (((man.newEntries.map snd ++ man.triedEntries.map snd).map _).map _) = _
    rw [← map_append, map_map, map_map]
    refine List.map_congr_left fun entry mem => ?_
    exact passes.addresses _ _ (passes.mem_writtenEntries.mp mem)
  rw [ids]
  exact passes.nodup_writtenIds

theorem nodup_triedPlace : (man.written.triedInfos.map (·.triedPlace env man.nKey)).Nodup := by
  refine List.Nodup.of_map man.vvTried ?_
  have ids : (man.written.triedInfos.map (·.triedPlace env man.nKey)).map man.vvTried =
      man.triedEntries.map fst := by
    change ((man.triedEntries.map snd).map _).map _ = _
    rw [map_map, map_map]
    refine List.map_congr_left fun entry mem => ?_
    obtain ⟨known, tried⟩ := lookup_of_triedEntries mem
    exact passes.vvTried_triedPlace known tried
  rw [ids]
  refine passes.nodup_writtenIds.sublist ?_
  rw [writtenIds, writtenEntries, map_append]
  exact List.sublist_append_right _ _

theorem unkId_bounds (id : Int) : 0 ≤ man.unkId id ∧ man.unkId id ≤ man.nNew := by
  have total : (man.sortedInfos.countP fun entry => decide (entry.2.nRefCount ≠ 0) : ℕ) =
      man.nNew := by
    rw [← passes.length_newEntries, newEntries, countP_eq_length_filter]
  have few : (man.sortedInfos.takeWhile fun entry => entry.1 ≠ id).countP
      (fun entry => decide (entry.2.nRefCount ≠ 0)) ≤
        man.sortedInfos.countP fun entry => decide (entry.2.nRefCount ≠ 0) :=
    (List.takeWhile_sublist _).countP_le
  unfold unkId
  split
  case isTrue => omega
  case isFalse => omega

theorem fits_written (fits : man.Fits) : man.written.Fits where
  nNew := by
    refine ⟨?_, fits.nNew⟩
    change man.nNew = ((man.newEntries.map snd).length : ℕ)
    rw [length_map, passes.length_newEntries]
  nTried := by
    refine ⟨?_, fits.nTried⟩
    change man.nTried = ((man.triedEntries.map snd).length : ℕ)
    rw [length_map, passes.length_triedEntries]
  nUBuckets := rfl
  newInfos := by
    intro info mem
    obtain ⟨entry, inside, rfl⟩ := mem_map.mp mem
    exact fits.infos _ _ (mem_sortedInfos.mp (mem_filter.mp inside).1)
  triedInfos := by
    intro info mem
    obtain ⟨entry, inside, rfl⟩ := mem_map.mp mem
    exact fits.infos _ _ (mem_sortedInfos.mp (mem_filter.mp inside).1)
  buckets := by
    rw [written, length_map, List.length_finRange]
  sizes := by
    intro bucket mem
    obtain ⟨number, rfl⟩ := exists_of_mem_buckets mem
    have few := List.length_filter_le (· ≠ -1)
      ((finRange bucketSize).map fun i => man.vvNew (number, i))
    rw [length_map, List.length_finRange] at few
    have size : bucketSize = 64 := rfl
    rw [length_map, bucketIds]
    omega
  indices := by
    intro bucket mem nIndex inside
    obtain ⟨number, rfl⟩ := exists_of_mem_buckets mem
    obtain ⟨id, -, rfl⟩ := mem_map.mp inside
    have bounds := passes.unkId_bounds id
    have small := fits.nNew
    omega

end PassesCheck

/-! ## The new table -/

def takenPlaces (man : CAddrMan) : List NewPlace :=
  (finRange newBucketCount).flatMap fun bucket =>
    ((finRange bucketSize).map fun i => (bucket, i)).filter fun place => man.vvNew place ≠ -1

theorem mem_takenPlaces {place : NewPlace} : place ∈ man.takenPlaces ↔ man.vvNew place ≠ -1 := by
  simp [takenPlaces]

theorem nodup_takenPlaces (man : CAddrMan) : man.takenPlaces.Nodup := by
  refine List.nodup_flatMap.mpr ⟨fun bucket _ => ?_, ?_⟩
  · refine ((List.nodup_finRange _).map ?_).filter _
    intro first second same
    exact (Prod.mk.inj same).2
  · refine (List.nodup_finRange _).imp fun {first second} differ => ?_
    intro place left right
    obtain ⟨i, -, rfl⟩ := mem_map.mp (mem_filter.mp left).1
    obtain ⟨j, -, same⟩ := mem_map.mp (mem_filter.mp right).1
    exact differ (Prod.mk.inj same).1.symm

theorem reload_buckets (env : AddrEnv) (man before : CAddrMan) :
    man.written.buckets.zipIdx.foldl (reloadBucket env) before =
      man.takenPlaces.foldl (fun now place =>
        now.loadPlace env true place.1 (man.unkId (man.vvNew place))) before := by
  have buckets : man.written.buckets =
      (finRange newBucketCount).map fun bucket => (man.bucketIds bucket).map man.unkId := by
    simp only [written]
  rw [buckets, foldl_zipIdx_finRange, takenPlaces, List.foldl_flatMap]
  refine congrArg (fun step => List.foldl step before (finRange newBucketCount)) ?_
  funext now bucket
  rw [reloadBucket, foldl_zipIdx_fst (fun now nIndex => loadPlace env true bucket nIndex now),
    foldl_map, bucketIds, List.filter_map, List.filter_map, foldl_map, foldl_map]
  rfl

/-! ## The new ids -/

namespace PassesCheck

variable {env : AddrEnv} {man target before after : CAddrMan} {randomKey : UInt256}

theorem renumbered_empty : man.renumbered (-1) = -1 := if_pos rfl

section

variable (passes : man.PassesCheck env)
include passes

variable {id : Int} {info : CAddrInfo} {n : ℕ}

theorem ne_of_known (known : man.mapInfo.lookup id = some info) : id ≠ -1 := by
  rintro rfl
  rw [passes.noEntry] at known
  cases known

theorem occurrences_eq (known : man.mapInfo.lookup id = some info) :
    (occurrences man.vvNew id : Int) = info.nRefCount := by
  cases tried : info.fInTried with
  | false => exact passes.newCount id info known tried
  | true =>
    rw [passes.unreferenced id info known tried, Int.natCast_eq_zero, occurrences_eq_zero_iff]
    rintro place rfl
    obtain ⟨other, there, new, -⟩ := passes.newPlaces place (passes.ne_of_known known)
    rw [known, some_inj] at there
    rw [there, new] at tried
    cases tried

theorem renumbered_of_getElem? {entry : Sigma fun _ : Int => CAddrInfo}
    (found : man.writtenEntries[n]? = some entry) : man.renumbered entry.1 = n := by
  have known := passes.mem_writtenEntries.mp (List.mem_of_getElem? found)
  have number : man.writtenIds[n]? = some entry.1 := by
    rw [writtenIds, List.getElem?_map, found]
    rfl
  obtain ⟨inside, here⟩ := List.getElem?_eq_some_iff.mp number
  rw [renumbered, if_neg (passes.ne_of_known known), ← here,
    passes.nodup_writtenIds.idxOf_getElem n inside]

theorem exists_number (known : man.mapInfo.lookup id = some info) :
    ∃ n : ℕ, man.writtenEntries[n]? = some ⟨id, info⟩ ∧ man.renumbered id = n := by
  have mem : (⟨id, info⟩ : Sigma fun _ : Int => CAddrInfo) ∈ man.writtenEntries :=
    passes.mem_writtenEntries.mpr known
  obtain ⟨n, found⟩ := List.mem_iff_getElem?.mp mem
  exact ⟨n, found, passes.renumbered_of_getElem? found⟩

theorem renumbered_ne {place : NewPlace} (taken : man.vvNew place ≠ -1) :
    man.renumbered (man.vvNew place) ≠ -1 := by
  obtain ⟨info, known, -⟩ := passes.newPlaces place taken
  obtain ⟨n, -, number⟩ := passes.exists_number known
  omega

theorem renumbered_injective {id other : Int} {info otherInfo : CAddrInfo}
    (known : man.mapInfo.lookup id = some info)
    (otherKnown : man.mapInfo.lookup other = some otherInfo)
    (same : man.renumbered id = man.renumbered other) : id = other := by
  obtain ⟨n, found, number⟩ := passes.exists_number known
  obtain ⟨m, otherFound, otherNumber⟩ := passes.exists_number otherKnown
  have numbers : n = m := by omega
  rw [numbers, otherFound, some_inj] at found
  exact (congrArg fst found).symm

theorem eq_of_renumbered {place other : NewPlace} (taken : man.vvNew place ≠ -1)
    (same : man.renumbered (man.vvNew other) = man.renumbered (man.vvNew place)) :
    man.vvNew other = man.vvNew place := by
  have otherTaken : man.vvNew other ≠ -1 := by
    intro empty
    rw [empty, renumbered_empty] at same
    exact passes.renumbered_ne taken same.symm
  obtain ⟨info, known, -⟩ := passes.newPlaces place taken
  obtain ⟨otherInfo, otherKnown, -⟩ := passes.newPlaces other otherTaken
  exact passes.renumbered_injective otherKnown known same

theorem number_lt_iff {entry : Sigma fun _ : Int => CAddrInfo}
    (found : man.writtenEntries[n]? = some entry) :
    n < man.newEntries.length ↔ entry.2.fInTried = false := by
  rw [writtenEntries, List.getElem?_append] at found
  split_ifs at found with first
  · obtain ⟨inside, referenced⟩ := mem_filter.mp (List.mem_of_getElem? found)
    refine iff_of_true first ?_
    rw [← passes.nRefCount_ne_zero (mem_sortedInfos.mp inside)]
    exact of_decide_eq_true referenced
  · have tried := (lookup_of_triedEntries (List.mem_of_getElem? found)).2
    refine iff_of_false first ?_
    rw [tried]
    exact Bool.noConfusion

theorem unkId_eq (known : man.mapInfo.lookup id = some info) (new : info.fInTried = false) :
    man.unkId id = man.renumbered id := by
  have mem : (⟨id, info⟩ : Sigma fun _ : Int => CAddrInfo) ∈ man.sortedInfos :=
    mem_sortedInfos.mpr known
  have referenced : decide (info.nRefCount ≠ 0) = true :=
    decide_eq_true ((passes.nRefCount_ne_zero known).mpr new)
  have first : id ∈ man.newEntries.map fst :=
    mem_map.mpr ⟨⟨id, info⟩, mem_filter.mpr ⟨mem, referenced⟩, rfl⟩
  have count := @countP_takeWhile (fun entry => decide (entry.2.nRefCount ≠ 0)) id info
    referenced man.sortedInfos mem nodup_sortedInfos
  rw [unkId, if_pos (mem_mapInfo known), renumbered, if_neg (passes.ne_of_known known), count,
    writtenIds, writtenEntries, map_append, List.idxOf_append_of_mem first]
  rfl

omit passes in
theorem getElem?_loadedInfos {entry : Sigma fun _ : Int => CAddrInfo}
    (found : man.writtenEntries[n]? = some entry) :
    (loadedInfos target man.written)[n]? =
      some (if n < man.newEntries.length then newInfo target (entry.2, n)
        else triedInfo (entry.2, n)) := by
  have length : ((man.newEntries.map snd).zipIdx.map (newInfo target)).length =
      man.newEntries.length := by
    rw [length_map, List.length_zipIdx, length_map]
  rw [writtenEntries, List.getElem?_append] at found
  change ((man.newEntries.map snd).zipIdx.map (newInfo target) ++
    ((man.triedEntries.map snd).zipIdx (man.newEntries.map snd).length).map
      triedInfo)[n]? = _
  rw [List.getElem?_append, length, length_map]
  split_ifs at found ⊢ with first
  · rw [List.getElem?_map, List.getElem?_zipIdx, List.getElem?_map, found, map_some,
      map_some, map_some, Nat.zero_add]
  · rw [List.getElem?_map, List.getElem?_zipIdx, List.getElem?_map, found, map_some,
      map_some, map_some, Nat.add_sub_cancel' (not_lt.mp first)]

theorem length_loadedInfos :
    ((loadedInfos target man.written).length : Int) = man.nNew + man.nTried := by
  rw [← passes.length_newEntries, ← passes.length_triedEntries]
  simp [loadedInfos, written, length_map]

theorem length_writtenEntries : (man.writtenEntries.length : Int) = man.nNew + man.nTried := by
  rw [← passes.length_newEntries, ← passes.length_triedEntries, writtenEntries,
    length_append, Nat.cast_add]

end

def Unreferenced (man target : CAddrMan) : Prop :=
  ∀ id : Int, 0 ≤ id → id < man.nNew → (target.info id).nRefCount = 0

section

variable (passes : man.PassesCheck env) (entered : Entered env target man.written before)
include passes entered

omit passes in
theorem lookup_entered {n : ℕ} {entry : Sigma fun _ : Int => CAddrInfo}
    (found : man.writtenEntries[n]? = some entry) :
    before.mapInfo.lookup (n : Int) = some (if n < man.newEntries.length then
      newInfo target (entry.2, n) else triedInfo (entry.2, n)) :=
  entered.loaded.stored n _ (getElem?_loadedInfos found)

theorem present : Grown.Present before := by
  intro id low high
  rw [entered.nNew] at high
  have few := passes.length_newEntries
  have inside : id.toNat < man.writtenEntries.length := by
    rw [writtenEntries, length_append]
    change id < man.nNew at high
    omega
  have stored := lookup_entered entered (List.getElem?_eq_getElem inside)
  rw [Int.toNat_of_nonneg low] at stored
  exact ⟨_, stored⟩

theorem loadPlace_next (unreferenced : Unreferenced man target) {now : CAddrMan}
    (grown : Grown before now) {place : NewPlace} (taken : man.vvNew place ≠ -1)
    (free : now.vvNew place = -1)
    (fewer : occurrences now.vvNew (man.renumbered (man.vvNew place)) <
      occurrences man.vvNew (man.vvNew place)) :
    (now.loadPlace env true place.1 (man.unkId (man.vvNew place))).vvNew =
      Function.update now.vvNew place (man.renumbered (man.vvNew place)) := by
  obtain ⟨entry, known, new, hashed⟩ := passes.newPlaces place taken
  obtain ⟨n, found, number⟩ := passes.exists_number known
  have first : n < man.newEntries.length := (passes.number_lt_iff found).mpr new
  have below : (n : Int) < man.nNew := by
    rw [← passes.length_newEntries]
    exact Int.ofNat_lt.mpr first
  have count := passes.newCount _ _ known new
  have atMost := (passes.referenced _ _ known new).2
  have stored := lookup_entered entered found
  rw [if_pos first] at stored
  have here := grown.lookup n (by omega)
  rw [stored, map_some] at here
  have bucket : Fin.ofNat newBucketCount (place.1 : ℕ) = place.1 :=
    Fin.ext (Nat.mod_eq_of_lt place.1.isLt)
  have there : (now.info n).newPlace env now.nKey (Fin.ofNat newBucketCount (place.1 : ℕ)) =
      place := by
    rw [CAddrMan.info, here, bucket, grown.nKey, entered.nKey]
    exact hashed
  have room : (now.info n).nRefCount < newBucketsPerAddress := by
    have stale : (target.info n).nRefCount = 0 := unreferenced n (Int.natCast_nonneg n) below
    rw [CAddrMan.info, here]
    change (target.info n).nRefCount + _ < newBucketsPerAddress
    rw [number] at fewer
    omega
  rw [passes.unkId_eq known new, number, CAddrMan.loadPlace,
    if_pos (by rw [grown.nNew, entered.nNew]; exact ⟨Int.natCast_nonneg n, below⟩)]
  refine (congrArg CAddrMan.vvNew (if_pos ⟨rfl, ?_, room⟩)).trans ?_
  · rw [there]
    rfl
  · rw [there]
    exact free

theorem vvNew_of_places (unreferenced : Unreferenced man target) (rest : List NewPlace)
    {now : CAddrMan} (grown : Grown before now) (distinct : rest.Nodup)
    (taken : ∀ place ∈ rest, man.vvNew place ≠ -1)
    (filled : ∀ place, (place ∈ rest → now.vvNew place = -1) ∧
      (place ∉ rest → now.vvNew place = man.renumbered (man.vvNew place))) (place : NewPlace) :
    (rest.foldl (fun now place => now.loadPlace env true place.1 (man.unkId (man.vvNew place)))
      now).vvNew place = man.renumbered (man.vvNew place) := by
  induction rest generalizing now with
  | nil => exact (filled place).2 List.not_mem_nil
  | cons next rest ih =>
    obtain ⟨absent, distinct⟩ := List.nodup_cons.mp distinct
    obtain ⟨here, taken⟩ := List.forall_mem_cons.mp taken
    have free : now.vvNew next = -1 := (filled next).1 List.mem_cons_self
    have valid := passes.renumbered_ne here
    have fewer : occurrences now.vvNew (man.renumbered (man.vvNew next)) <
        occurrences man.vvNew (man.vvNew next) := by
      refine occurrences_lt (fun other holds => ?_) (free ▸ valid.symm) rfl
      by_cases later : other ∈ next :: rest
      · rw [(filled other).1 later] at holds
        exact absurd holds.symm valid
      · rw [(filled other).2 later] at holds
        exact passes.eq_of_renumbered here holds
    have entersNext := passes.loadPlace_next entered unreferenced grown here free fewer
    refine ih (grown.loadPlace (passes.present entered) _ _) distinct taken fun other => ?_
    rw [entersNext]
    by_cases same : other = next
    · rw [same, Function.update_self]
      exact ⟨fun again => absurd again absent, fun _ => rfl⟩
    · rw [Function.update_of_ne same]
      exact ⟨fun later => (filled other).1 (.tail _ later), fun apart =>
        (filled other).2 (mt (mem_cons.mp · |>.resolve_left same) apart)⟩

end

theorem exists_reload (passes : man.PassesCheck env) (randomKey : UInt256) (target : CAddrMan) :
    ∃ before, Entered env target man.written before ∧
      Grown before (reload env man.written randomKey target) ∧
      (Unreferenced man target → ∀ place,
        (reload env man.written randomKey target).vvNew place =
          man.renumbered (man.vvNew place)) := by
  have count : man.written.nNew = man.written.newInfos.length := by
    change man.nNew = ((man.newEntries.map snd).length : ℕ)
    rw [length_map, passes.length_newEntries]
  obtain ⟨before, entered, reloaded⟩ :=
    reload_eq randomKey target count passes.nodup_netAddr passes.nodup_triedPlace
  have start : Grown before before := .start entered.vvNew
  refine ⟨before, entered, ?_, fun unreferenced place => ?_⟩
  · rw [reloaded]
    exact start.reload (passes.present entered) _
  · rw [reloaded, reload_buckets]
    refine passes.vvNew_of_places entered unreferenced man.takenPlaces start
      man.nodup_takenPlaces (fun place => mem_takenPlaces.mp) (fun place => ?_) place
    rw [entered.vvNew]
    refine ⟨fun _ => rfl, fun free => ?_⟩
    rw [not_not.mp fun other => free (mem_takenPlaces.mpr other), renumbered_empty]

end PassesCheck

end CAddrMan

end DogeCash
