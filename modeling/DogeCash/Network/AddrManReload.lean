import Mathlib.Data.Fintype.Prod
import DogeCash.Foundation.Occurrences
import DogeCash.Network.AddrManDisk

/-! # What is read into an address manager

`Clear` leaves both maps as they are, so the entries are read into what is there already. An entry
of the new table keeps the last try, the references and the mark of a tried entry of the entry that
had its id before, and the entries with other ids stay. From then on the references of an entry grow
with its places in the new table.
-/

namespace DogeCash

open Function (update update_of_ne update_self)
open List (append_assoc append_nil finRange length_append length_singleton map_append map_cons
  map_nil)

theorem getElem?_concat_eq_some {α : Type*} {items : List α} {last a : α} {n : ℕ} :
    (items ++ [last])[n]? = some a ↔ items[n]? = some a ∨ n = items.length ∧ last = a := by
  by_cases inside : n < items.length
  · rw [List.getElem?_append_left inside]
    exact ⟨.inl, fun found => found.resolve_right fun past => by omega⟩
  · rw [List.getElem?_eq_none (not_lt.mp inside)]
    by_cases here : n = items.length
    · rw [here, List.getElem?_concat_length]
      simp
    · rw [List.getElem?_eq_none (by rw [length_append, length_singleton]; omega)]
      simp [here]

theorem foldl_zipIdx_finRange {α β : Type*} {size : ℕ} (step : β → α × ℕ → β) (f : Fin size → α)
    (state : β) :
    ((finRange size).map f).zipIdx.foldl step state =
      (finRange size).foldl (fun state number => step state (f number, number)) state := by
  have numbered : ((finRange size).map f).zipIdx =
      (finRange size).map fun number => (f number, (number : ℕ)) := by
    refine List.ext_getElem (by simp) fun n _ _ => ?_
    simp
  rw [numbered, List.foldl_map]

theorem foldl_zipIdx_fst {α β : Type*} (step : β → α → β) (items : List α) (first : ℕ)
    (state : β) :
    (items.zipIdx first).foldl (fun state item => step state item.1) state =
      items.foldl step state := by
  conv_rhs => rw [← List.zipIdx_map_fst first items, List.foldl_map]

namespace CAddrMan

/-- Some entries were put in, under their numbers. -/
structure Loaded (target : CAddrMan) (infos : List CAddrInfo) (man : CAddrMan) : Prop where
  stored : ∀ (n : ℕ) info, infos[n]? = some info → man.mapInfo.lookup (n : Int) = some info
  others : ∀ id : Int, (∀ n : ℕ, n < infos.length → id ≠ n) →
    man.mapInfo.lookup id = target.mapInfo.lookup id
  byAddr : ∀ (n : ℕ) info, infos[n]? = some info → man.mapAddr info.netAddr = some (n : Int)
  order : man.vRandom = (List.range infos.length).map Nat.cast

namespace Loaded

variable {target man after : CAddrMan} {infos : List CAddrInfo} {info : CAddrInfo}

section

variable (loaded : Loaded target infos man)
include loaded

theorem length_vRandom : man.vRandom.length = infos.length := by
  rw [loaded.order, List.length_map, List.length_range]

theorem info_length : man.info infos.length = target.info infos.length := by
  unfold CAddrMan.info
  rw [loaded.others _ fun n below => by omega]

theorem push (fresh : ∀ other ∈ infos, other.netAddr ≠ info.netAddr)
    (mapInfo : after.mapInfo = man.mapInfo.insert (infos.length : Int) info)
    (mapAddr : after.mapAddr = update man.mapAddr info.netAddr (some (infos.length : Int)))
    (order : after.vRandom = man.vRandom ++ [(infos.length : Int)]) :
    Loaded target (infos ++ [info]) after where
  stored := by
    intro n other found
    rw [mapInfo, KeyedMap.lookup_insert_eq_ite]
    rcases getElem?_concat_eq_some.mp found with before | ⟨rfl, rfl⟩
    · have inside := (List.getElem?_eq_some_iff.mp before).1
      rw [if_neg (by omega), loaded.stored n other before]
    · rw [if_pos rfl]
  others := by
    intro id differs
    rw [length_append, length_singleton] at differs
    rw [mapInfo, AList.lookup_insert_ne (differs _ (Nat.lt_succ_self _))]
    exact loaded.others id fun n below => differs n (Nat.lt_succ_of_lt below)
  byAddr := by
    intro n other found
    rw [mapAddr]
    rcases getElem?_concat_eq_some.mp found with before | ⟨rfl, rfl⟩
    · rw [update_of_ne (fresh other (List.mem_of_getElem? before))]
      exact loaded.byAddr n other before
    · rw [update_self]
  order := by
    rw [order, loaded.order, length_append, length_singleton, List.range_succ, map_append]
    rfl

end

end Loaded

def newInfo (target : CAddrMan) (item : CAddrInfo × ℕ) : CAddrInfo :=
  { (target.info item.2).absorb item.1 with nRandomPos := item.2 }

def triedInfo (item : CAddrInfo × ℕ) : CAddrInfo :=
  { ({} : CAddrInfo).absorb item.1 with nRandomPos := item.2, fInTried := true }

def Distinct (infos rest : List CAddrInfo) : Prop :=
  (infos.map (·.netAddr) ++ rest.map (·.netAddr)).Nodup

namespace Distinct

variable {infos rest : List CAddrInfo} {info after : CAddrInfo}

theorem fresh (distinct : Distinct infos (info :: rest)) (same : after.netAddr = info.netAddr) :
    ∀ other ∈ infos, other.netAddr ≠ after.netAddr := by
  intro other mem equal
  refine List.disjoint_of_nodup_append distinct (List.mem_map_of_mem mem) ?_
  rw [equal, same, map_cons]
  exact List.mem_cons_self

theorem push (distinct : Distinct infos (info :: rest)) (same : after.netAddr = info.netAddr) :
    Distinct (infos ++ [after]) rest := by
  rw [Distinct, map_append, List.map_singleton, same, append_assoc, List.singleton_append]
  exact distinct

end Distinct

section Loops

variable {env : AddrEnv} {target man : CAddrMan} {infos : List CAddrInfo}

theorem loaded_new (rest : List CAddrInfo) (loaded : Loaded target infos man)
    (distinct : Distinct infos rest) :
    ∃ after, (rest.zipIdx infos.length).foldl (fun man item =>
        man.loadNew env true item.2 ((man.info item.2).absorb item.1)) man = after ∧
      Loaded target (infos ++ (rest.zipIdx infos.length).map (newInfo target)) after ∧
      after = { man with
        mapInfo := after.mapInfo, mapAddr := after.mapAddr, vRandom := after.vRandom } := by
  induction rest generalizing infos man with
  | nil => exact ⟨man, rfl, by rwa [List.zipIdx_nil, map_nil, append_nil], rfl⟩
  | cons info rest ih =>
    let stored := newInfo target (info, infos.length)
    have absorbed : { (man.info infos.length).absorb info with
        nRandomPos := (man.vRandom.length : Int) } = stored := by
      rw [loaded.info_length, loaded.length_vRandom]
      rfl
    have pushed : Loaded target (infos ++ [stored])
        (man.loadNew env true infos.length ((man.info infos.length).absorb info)) :=
      loaded.push (distinct.fresh rfl) (congrArg (man.mapInfo.insert _) absorbed) rfl rfl
    obtain ⟨after, runs, all, kept⟩ := ih pushed (distinct.push rfl)
    rw [length_append, length_singleton] at runs all
    refine ⟨after, runs, ?_, kept⟩
    rwa [append_assoc] at all

def TriedAt (env : AddrEnv) (base : ℕ) (infos : List CAddrInfo) (man : CAddrMan) : Prop :=
  (∀ (n : ℕ) info, infos[n]? = some info →
      man.vvTried (info.triedPlace env man.nKey) = ((base + n : ℕ) : Int)) ∧
    ∀ place, man.vvTried place ≠ -1 → ∃ info ∈ infos, info.triedPlace env man.nKey = place

variable {base : ℕ} {done : List CAddrInfo}

theorem TriedAt.push {info : CAddrInfo} {after : CAddrMan} (tried : TriedAt env base done man)
    (fresh : ∀ other ∈ done, other.triedPlace env man.nKey ≠ info.triedPlace env man.nKey)
    (nKey : after.nKey = man.nKey)
    (vvTried : after.vvTried = update man.vvTried (info.triedPlace env man.nKey)
      ((base + done.length : ℕ) : Int)) : TriedAt env base (done ++ [info]) after := by
  constructor
  · intro n other found
    rw [nKey, vvTried]
    rcases getElem?_concat_eq_some.mp found with before | ⟨rfl, rfl⟩
    · rw [update_of_ne (fresh other (List.mem_of_getElem? before))]
      exact tried.1 n other before
    · rw [update_self]
  · intro place occupied
    rw [nKey]
    rw [vvTried] at occupied
    by_cases here : place = info.triedPlace env man.nKey
    · exact ⟨info, List.mem_append_right _ (List.mem_singleton_self info), here.symm⟩
    · rw [update_of_ne here] at occupied
      obtain ⟨other, mem, there⟩ := tried.2 place occupied
      exact ⟨other, List.mem_append_left _ mem, there⟩

/-- The loop over the entries of the tried table, from a round on: none is lost. -/
theorem loaded_tried (rest : List CAddrInfo) (loaded : Loaded target infos man)
    (distinct : Distinct infos rest) (idCount : man.nIdCount = infos.length)
    (length : infos.length = base + done.length) (tried : TriedAt env base done man)
    (places : ((done ++ rest).map (·.triedPlace env man.nKey)).Nodup) :
    ∃ after, rest.foldl (fun state info =>
        loadTried env (({} : CAddrInfo).absorb info) state) (man, 0) = (after, 0) ∧
      Loaded target (infos ++ (rest.zipIdx infos.length).map triedInfo) after ∧
      TriedAt env base (done ++ rest) after ∧
      after = { man with
        mapInfo := after.mapInfo, mapAddr := after.mapAddr, vRandom := after.vRandom
        vvTried := after.vvTried, nIdCount := after.nIdCount } := by
  induction rest generalizing infos man done with
  | nil =>
    refine ⟨man, rfl, ?_, ?_, rfl⟩
    · rwa [List.zipIdx_nil, map_nil, append_nil]
    · rwa [append_nil]
  | cons info rest ih =>
    have fresh : ∀ other ∈ done, other.triedPlace env man.nKey ≠ info.triedPlace env man.nKey := by
      intro other mem same
      rw [map_append] at places
      refine List.disjoint_of_nodup_append places (List.mem_map_of_mem mem) ?_
      rw [same, map_cons]
      exact List.mem_cons_self
    have free : man.vvTried (info.triedPlace env man.nKey) = -1 := by
      by_contra taken
      obtain ⟨other, mem, same⟩ := tried.2 _ taken
      exact fresh other mem same
    let stored := triedInfo (info, infos.length)
    let next : CAddrMan := { man with
      vRandom := man.vRandom ++ [man.nIdCount]
      mapInfo := man.mapInfo.insert man.nIdCount stored
      mapAddr := update man.mapAddr info.netAddr (some man.nIdCount)
      vvTried := update man.vvTried (info.triedPlace env man.nKey) man.nIdCount
      nIdCount := man.nIdCount + 1 }
    have step : loadTried env (({} : CAddrInfo).absorb info) (man, 0) = (next, 0) := by
      refine (if_pos free).trans ?_
      rw [loaded.length_vRandom]
      rfl
    have pushed : Loaded target (infos ++ [stored]) next :=
      loaded.push (distinct.fresh rfl) (by rw [← idCount]) (by rw [← idCount]; rfl)
        (by rw [← idCount])
    have placed : TriedAt env base (done ++ [info]) next :=
      tried.push fresh rfl (by rw [← length, ← idCount])
    obtain ⟨after, runs, all, triedAll, kept⟩ := ih pushed (distinct.push rfl)
      (by rw [length_append, length_singleton, Nat.cast_add, ← idCount]; rfl)
      (by rw [length_append, length_append, length]; rfl) placed
      (by rwa [append_assoc])
    rw [length_append, length_singleton] at all
    refine ⟨after, ?_, ?_, ?_, kept⟩
    · rw [List.foldl_cons, step]
      exact runs
    · rwa [append_assoc] at all
    · rwa [append_assoc] at triedAll

end Loops

/-- The places of the new table were entered one after the other: each entry has as many references
more as it has places. -/
structure Grown (before man : CAddrMan) : Prop where
  rest : man = { before with mapInfo := man.mapInfo, vvNew := man.vvNew }
  lookup : ∀ id : Int, id ≠ -1 → man.mapInfo.lookup id =
    (before.mapInfo.lookup id).map fun info =>
      { info with nRefCount := info.nRefCount + occurrences man.vvNew id }
  empty : man.mapInfo.lookup (-1) = before.mapInfo.lookup (-1)
  inside : ∀ place, man.vvNew place ≠ -1 → 0 ≤ man.vvNew place ∧ man.vvNew place < before.nNew

namespace Grown

variable {env : AddrEnv} {before man : CAddrMan}

theorem start (free : ∀ place, before.vvNew place = -1) : Grown before before where
  rest := rfl
  lookup := by
    intro id valid
    have none : occurrences before.vvNew id = 0 :=
      occurrences_eq_zero_iff.mpr fun place => by rw [free]; exact valid.symm
    cases before.mapInfo.lookup id with
    | none => rfl
    | some info => rw [Option.map_some, none, Nat.cast_zero, Int.add_zero]
  empty := rfl
  inside place taken := absurd (free place) taken

theorem nNew (grown : Grown before man) : man.nNew = before.nNew := by
  rw [grown.rest]

theorem nKey (grown : Grown before man) : man.nKey = before.nKey := by
  rw [grown.rest]

def Present (before : CAddrMan) : Prop :=
  ∀ id : Int, 0 ≤ id → id < before.nNew → ∃ info, before.mapInfo.lookup id = some info

section

variable (grown : Grown before man)
include grown

theorem enter {place : NewPlace} {nIndex : Int} (free : man.vvNew place = -1) (low : 0 ≤ nIndex)
    (high : nIndex < before.nNew) {info : CAddrInfo} (known : man.mapInfo.lookup nIndex = some info)
    :
    Grown before ((man.modifyInfo nIndex fun info =>
      { info with nRefCount := info.nRefCount + 1 }).setNew place nIndex) where
  rest := by
    rw [grown.rest]
    rfl
  lookup := by
    intro id valid
    change (man.mapInfo.insert nIndex _).lookup id = (before.mapInfo.lookup id).map fun info =>
      { info with nRefCount := info.nRefCount + occurrences (update man.vvNew place nIndex) id }
    have earlier := grown.lookup id valid
    rw [KeyedMap.lookup_insert_eq_ite]
    by_cases same : id = nIndex
    · subst id
      rw [if_pos rfl, CAddrMan.info, known, Option.getD_some]
      rw [known] at earlier
      obtain ⟨old, there, grew⟩ := Option.map_eq_some_iff.mp earlier.symm
      rw [there, Option.map_some, occurrences_update_self (by omega), ← grew]
      simp only [Nat.cast_add, Nat.cast_one, Int.add_assoc]
    · rw [if_neg same, earlier, occurrences_update_of_ne (by omega) (Ne.symm same)]
  empty := (AList.lookup_insert_ne (by omega)).trans grown.empty
  inside := by
    intro other taken
    change update man.vvNew place nIndex other ≠ -1 at taken
    change 0 ≤ update man.vvNew place nIndex other ∧
      update man.vvNew place nIndex other < before.nNew
    by_cases here : other = place
    · subst other
      rw [update_self]
      exact ⟨low, high⟩
    · rw [update_of_ne here] at taken ⊢
      exact grown.inside other taken

theorem exists_lookup (present : Present before) {id : Int} (low : 0 ≤ id) (high : id < before.nNew) :
    ∃ info, man.mapInfo.lookup id = some info := by
  obtain ⟨info, known⟩ := present id low high
  rw [grown.lookup id (by omega), known]
  exact ⟨_, rfl⟩

theorem loadPlace (present : Present before) (bucket : ℕ) (nIndex : Int) :
    Grown before (man.loadPlace env true bucket nIndex) := by
  unfold CAddrMan.loadPlace
  split
  case isTrue range =>
      rw [grown.nNew] at range
      obtain ⟨info, known⟩ := grown.exists_lookup present range.1 range.2
      extract_lets here place
      split
      case isTrue enters => exact grown.enter enters.2.1 range.1 range.2 known
      case isFalse => exact grown
  case isFalse => exact grown

theorem reload (present : Present before) (buckets : List (List Int × ℕ)) :
    Grown before (buckets.foldl (reloadBucket env) man) :=
  List.foldlRecOn buckets (reloadBucket env) grown fun _ now bucket _ =>
    List.foldlRecOn bucket.1.zipIdx _ now fun _ now item _ => now.loadPlace present bucket.2 item.1

end

end Grown

def loadedInfos (target : CAddrMan) (written : Written) : List CAddrInfo :=
  written.newInfos.zipIdx.map (newInfo target) ++
    (written.triedInfos.zipIdx written.newInfos.length).map triedInfo

/-- The entries were read, and the new table was not yet. -/
structure Entered (env : AddrEnv) (target : CAddrMan) (written : Written) (man : CAddrMan) :
    Prop where
  loaded : Loaded target (loadedInfos target written) man
  tried : TriedAt env written.newInfos.length written.triedInfos man
  nKey : man.nKey = written.nKey
  nNew : man.nNew = written.nNew
  nTried : man.nTried = written.nTried
  vvNew : ∀ place, man.vvNew place = -1

theorem reload_eq {env : AddrEnv} {written : Written} (randomKey : UInt256) (target : CAddrMan)
    (count : written.nNew = written.newInfos.length)
    (distinct : ((written.newInfos ++ written.triedInfos).map (·.netAddr)).Nodup)
    (places : (written.triedInfos.map (·.triedPlace env written.nKey)).Nodup) :
    ∃ before, Entered env target written before ∧
      reload env written randomKey target =
        written.buckets.zipIdx.foldl (reloadBucket env) before := by
  let cleared : CAddrMan := { target.clear randomKey with
    nKey := written.nKey
    nNew := written.nNew
    nTried := written.nTried }
  have start : Loaded target [] cleared := by
    refine ⟨?_, fun _ _ => rfl, ?_, rfl⟩
    · intro n info impossible
      cases impossible
    · intro n info impossible
      cases impossible
  rw [map_append] at distinct
  obtain ⟨first, newRuns, newLoaded, newKept⟩ :=
    @loaded_new env target _ _ written.newInfos start (List.nodup_append.mp distinct).1
  let infos := written.newInfos.zipIdx.map (newInfo target)
  have length : infos.length = written.newInfos.length := by
    rw [List.length_map, List.length_zipIdx]
  let middle : CAddrMan := { first with nIdCount := first.nNew }
  have kept : middle.nKey = written.nKey ∧ middle.nNew = written.nNew ∧
      middle.nTried = written.nTried ∧ (∀ place, middle.vvTried place = -1) ∧
      ∀ place, middle.vvNew place = -1 := by
    change first.nKey = _ ∧ first.nNew = _ ∧ first.nTried = _ ∧ (∀ place, first.vvTried place = -1) ∧
      ∀ place, first.vvNew place = -1
    rw [newKept]
    exact ⟨rfl, rfl, rfl, fun _ => rfl, fun _ => rfl⟩
  obtain ⟨nKey, nNew, nTried, noTried, noNew⟩ := kept
  have loaded : Loaded target infos middle :=
    ⟨newLoaded.stored, newLoaded.others, newLoaded.byAddr, newLoaded.order⟩
  have others : Distinct infos written.triedInfos := by
    have same : infos.map (·.netAddr) = written.newInfos.map (·.netAddr) := by
      have fields := congrArg (List.map fun info : CAddrInfo => info.netAddr)
        (List.zipIdx_map_fst 0 written.newInfos)
      rw [List.map_map] at fields ⊢
      exact fields
    rwa [Distinct, same]
  have none : TriedAt env written.newInfos.length [] middle := by
    refine ⟨?_, fun place taken => absurd (noTried place) taken⟩
    intro n info impossible
    cases impossible
  obtain ⟨before, triedRuns, all, tried, triedKept⟩ := loaded_tried written.triedInfos loaded others
    (by rw [length]; exact nNew.trans count) length none (by rwa [nKey])
  rw [length] at all
  have through : reloadTried env written (reloadNew env written cleared) = (before, 0) := by
    have new : reloadNew env written cleared = first := newRuns
    rw [new, reloadTried, foldl_zipIdx_fst (fun state info =>
      loadTried env (({} : CAddrInfo).absorb info) state)]
    exact triedRuns
  have counts : before.nKey = middle.nKey ∧ before.nNew = middle.nNew ∧
      before.nTried = middle.nTried ∧ before.vvNew = middle.vvNew := by
    rw [triedKept]
    exact ⟨rfl, rfl, rfl, rfl⟩
  refine ⟨before, ⟨all, tried, counts.1.trans nKey, counts.2.1.trans nNew,
    counts.2.2.1.trans nTried, fun place => ?_⟩, ?_⟩
  · rw [counts.2.2.2]
    exact noNew place
  · change List.foldl (reloadBucket env) { (reloadTried env written (reloadNew env written cleared)).1
      with nTried := _ } _ = _
    rw [through, Int.sub_zero]

end CAddrMan

end DogeCash
