import DogeCash.Network.AddrTables

/-! # The entries of the address manager

The ids in the random order are the ids with an entry, at the position the entry has, and
the addresses lead to them (`Indexed`). Together with the counters (`Counted`) and the tables
(`AddrTables`) this is `Linked`, which allows for entries without a place in a table and
for a counter that lags behind. Each operation on entries finds its assertions fulfilled there
and keeps it.
-/

namespace DogeCash

open Function (update update_of_ne update_self)
open Option (map_eq_some_iff map_some some_inj)

def CAddrInfo.unplaced (info : CAddrInfo) : CAddrInfo := { info with nRandomPos := 0 }

namespace CAddrMan

def entries (man : CAddrMan) (id : Int) : Option CAddrInfo :=
  (man.mapInfo.lookup id).map CAddrInfo.unplaced

def triedCount (man : CAddrMan) : Int :=
  KeyedMap.total (fun info : CAddrInfo => if info.fInTried then 1 else 0) man.mapInfo

def newCount (man : CAddrMan) : Int :=
  KeyedMap.total (fun info : CAddrInfo => if info.fInTried then 0 else 1) man.mapInfo

/-- The ids, the addresses and the random order describe the same entries. -/
structure Indexed (man : CAddrMan) : Prop where
  ids : ∀ id info, man.mapInfo.lookup id = some info → 0 ≤ id ∧ id < man.nIdCount
  byAddr : ∀ addr id, man.mapAddr addr = some id ↔
    ∃ info, man.mapInfo.lookup id = some info ∧ info.netAddr = addr
  placed : ∀ id info, man.mapInfo.lookup id = some info →
    ∃ pos : ℕ, info.nRandomPos = pos ∧ man.vRandom[pos]? = some id
  listed : ∀ (pos : ℕ) id, man.vRandom[pos]? = some id →
    ∃ info, man.mapInfo.lookup id = some info ∧ info.nRandomPos = pos
  fits : man.vRandom.length ≤ man.nIdCount
  bounded : man.nIdCount < 2 ^ 31

/-- The counters are exact, but that `nNew` is short by some. -/
structure Counted (short : Int) (man : CAddrMan) : Prop where
  tried : man.nTried = man.triedCount
  new : man.nNew + short = man.newCount
  all : (man.vRandom.length : Int) = man.triedCount + man.newCount

/-- The parts of the address manager agree. -/
structure Linked (env : AddrEnv) (short : Int) (loose : Int → Prop) (man : CAddrMan) : Prop where
  indexed : man.Indexed
  counted : man.Counted short
  tables : AddrTables env man.nKey man.entries man.vvTried man.vvNew
  referenced : Referenced loose man.entries
  keyed : man.nKey ≠ 0

variable {man after : CAddrMan} {id : Int} {info entry : CAddrInfo}
  {change : CAddrInfo → CAddrInfo}

theorem entries_eq_some (present : man.mapInfo.lookup id = some info) :
    man.entries id = some info.unplaced := by
  rw [entries, present, map_some]

theorem lookup_of_entries (present : man.entries id = some entry) :
    ∃ info, man.mapInfo.lookup id = some info ∧ info.unplaced = entry :=
  map_eq_some_iff.mp present

theorem info_eq (present : man.mapInfo.lookup id = some info) : man.info id = info := by
  rw [CAddrMan.info, present, Option.getD_some]

theorem mem_mapInfo (present : man.mapInfo.lookup id = some info) : id ∈ man.mapInfo :=
  AList.lookup_isSome.mp (by rw [present]; rfl)

theorem unplaced_info (present : man.entries id = some entry) : (man.info id).unplaced = entry := by
  obtain ⟨info, found, rfl⟩ := lookup_of_entries present
  rw [info_eq found]

theorem lookup_modifyInfo_self :
    (man.modifyInfo id change).mapInfo.lookup id = some (change (man.info id)) :=
  AList.lookup_insert man.mapInfo

theorem lookup_modifyInfo_of_ne {other : Int} (differ : other ≠ id) :
    (man.modifyInfo id change).mapInfo.lookup other = man.mapInfo.lookup other :=
  AList.lookup_insert_ne differ

theorem entries_modifyInfo (present : man.entries id = some entry)
    (commutes : ∀ info : CAddrInfo, (change info).unplaced = change info.unplaced) :
    (man.modifyInfo id change).entries = update man.entries id (some (change entry)) := by
  funext other
  by_cases same : other = id
  · subst other
    rw [entries, lookup_modifyInfo_self, update_self, map_some, commutes, unplaced_info present]
  · rw [update_of_ne same, entries, lookup_modifyInfo_of_ne same, entries]

theorem Indexed.modifyInfo (indexed : man.Indexed) (present : man.mapInfo.lookup id = some info)
    (netAddr : (change info).netAddr = info.netAddr)
    (position : (change info).nRandomPos = info.nRandomPos) :
    (man.modifyInfo id change).Indexed where
  ids other found known := by
    by_cases same : other = id
    · rw [same]
      exact indexed.ids id info present
    · rw [lookup_modifyInfo_of_ne same] at known
      exact indexed.ids other found known
  byAddr addr other := by
    have before := indexed.byAddr addr other
    by_cases same : other = id
    · subst other
      rw [lookup_modifyInfo_self, info_eq present]
      rw [present] at before
      simp only [some_inj, exists_eq_left'] at before ⊢
      rw [netAddr]
      exact before
    · rw [lookup_modifyInfo_of_ne same]
      exact before
  placed other found known := by
    by_cases same : other = id
    · subst other
      rw [lookup_modifyInfo_self, info_eq present, some_inj] at known
      subst found
      rw [position]
      exact indexed.placed id info present
    · rw [lookup_modifyInfo_of_ne same] at known
      exact indexed.placed other found known
  listed pos other inPlace := by
    obtain ⟨found, known, at_pos⟩ := indexed.listed pos other inPlace
    by_cases same : other = id
    · subst other
      rw [present, some_inj] at known
      subst found
      refine ⟨_, lookup_modifyInfo_self, ?_⟩
      rw [info_eq present, position]
      exact at_pos
    · exact ⟨found, by rw [lookup_modifyInfo_of_ne same]; exact known, at_pos⟩
  fits := indexed.fits
  bounded := indexed.bounded

section Counts

variable (change) (present : man.mapInfo.lookup id = some info)
include present

theorem triedCount_modifyInfo :
    (man.modifyInfo id change).triedCount + (if info.fInTried then 1 else 0) =
      (if (change info).fInTried then 1 else 0) + man.triedCount := by
  have total := KeyedMap.total_insert_of_present
    (fun info : CAddrInfo => if info.fInTried then (1 : Int) else 0) (change info) present
  rw [triedCount, CAddrMan.modifyInfo, info_eq present]
  exact total

theorem newCount_modifyInfo :
    (man.modifyInfo id change).newCount + (if info.fInTried then 0 else 1) =
      (if (change info).fInTried then 0 else 1) + man.newCount := by
  have total := KeyedMap.total_insert_of_present
    (fun info : CAddrInfo => if info.fInTried then (0 : Int) else 1) (change info) present
  rw [newCount, CAddrMan.modifyInfo, info_eq present]
  exact total

theorem counts_modifyInfo (inTried : (change info).fInTried = info.fInTried) :
    (man.modifyInfo id change).triedCount = man.triedCount ∧
      (man.modifyInfo id change).newCount = man.newCount := by
  have tried := triedCount_modifyInfo change present
  have new := newCount_modifyInfo change present
  rw [inTried] at tried new
  constructor <;> omega

omit present in
theorem counts_erase (after : CAddrMan) (present : man.mapInfo.lookup id = some info)
    (new : info.fInTried = false) (erased : after.mapInfo = man.mapInfo.erase id) :
    after.triedCount = man.triedCount ∧ after.newCount = man.newCount - 1 := by
  have tried := KeyedMap.total_erase
    (fun info : CAddrInfo => if info.fInTried then (1 : Int) else 0) present
  have fresh := KeyedMap.total_erase
    (fun info : CAddrInfo => if info.fInTried then (0 : Int) else 1) present
  rw [new] at tried fresh
  rw [triedCount, newCount, erased, triedCount, newCount, tried, fresh]
  exact ⟨(zero_add _).symm, (add_sub_cancel_left _ _).symm⟩

end Counts

/-! ## The random order -/

/-- What a call inside the address manager leaves alone. -/
structure Framed (man after : CAddrMan) : Prop where
  nKey : after.nKey = man.nKey
  nIdCount : after.nIdCount = man.nIdCount
  vvTried : after.vvTried = man.vvTried

/-- What a swap in the random order leaves alone. -/
structure Shuffled (man after : CAddrMan) : Prop where
  rest : after = { man with mapInfo := after.mapInfo, vRandom := after.vRandom }
  entries : after.entries = man.entries
  length : after.vRandom.length = man.vRandom.length
  triedCount : after.triedCount = man.triedCount
  newCount : after.newCount = man.newCount
  indexed : after.Indexed

theorem Shuffled.framed (shuffled : man.Shuffled after) : man.Framed after := by
  constructor <;> rw [shuffled.rest]

theorem Shuffled.vvNew (shuffled : man.Shuffled after) : after.vvNew = man.vvNew := by
  rw [shuffled.rest]

theorem toUnsigned_natCast {number : ℕ} (small : number < 2 ^ 32) : toUnsigned number = number := by
  unfold toUnsigned
  omega

def swappedPos (first second : ℕ) (firstId secondId id pos : Int) : Int :=
  if id = firstId then second else if id = secondId then first else pos

variable {first second : ℕ} {firstId secondId : Int} {env : AddrEnv} {short : Int}
    {loose : Int → Prop}

theorem Indexed.ids_ne (indexed : man.Indexed) (differ : first ≠ second)
    (atFirst : man.vRandom[first]? = some firstId) (atSecond : man.vRandom[second]? = some secondId) :
    secondId ≠ firstId := by
  obtain ⟨firstInfo, firstKnown, firstPos⟩ := indexed.listed first firstId atFirst
  obtain ⟨secondInfo, secondKnown, secondPos⟩ := indexed.listed second secondId atSecond
  rintro rfl
  rw [firstKnown, some_inj] at secondKnown
  subst secondInfo
  omega

theorem Indexed.swap (indexed : man.Indexed) {first second : ℕ} {firstId secondId : Int}
    (differ : first ≠ second) (atFirst : man.vRandom[first]? = some firstId)
    (atSecond : man.vRandom[second]? = some secondId)
    (rest : after = { man with mapInfo := after.mapInfo, vRandom := after.vRandom })
    (order : after.vRandom = (man.vRandom.set first secondId).set second firstId)
    (lookups : ∀ id, after.mapInfo.lookup id = (man.mapInfo.lookup id).map fun info =>
      { info with nRandomPos := swappedPos first second firstId secondId id info.nRandomPos }) :
    after.Indexed := by
  have firstInside : first < man.vRandom.length := (List.getElem?_eq_some_iff.mp atFirst).1
  have secondInside : second < man.vRandom.length := (List.getElem?_eq_some_iff.mp atSecond).1
  have mapAddr : after.mapAddr = man.mapAddr := by rw [rest]
  have nIdCount : after.nIdCount = man.nIdCount := by rw [rest]
  have place : ∀ pos : ℕ, after.vRandom[pos]? =
      if pos = second then some firstId else if pos = first then some secondId
        else man.vRandom[pos]? := by
    intro pos
    rw [order, List.getElem?_set, List.getElem?_set, List.length_set, if_pos secondInside,
      if_pos firstInside]
    simp only [eq_comm]
  obtain ⟨firstInfo, firstKnown, firstPos⟩ := indexed.listed first firstId atFirst
  obtain ⟨secondInfo, secondKnown, secondPos⟩ := indexed.listed second secondId atSecond
  have idsDiffer := indexed.ids_ne differ atFirst atSecond
  refine ⟨?_, ?_, ?_, ?_, ?_, ?_⟩
  · intro id found known
    rw [lookups] at known
    obtain ⟨info, before, -⟩ := map_eq_some_iff.mp known
    rw [nIdCount]
    exact indexed.ids id info before
  · intro addr id
    rw [mapAddr, indexed.byAddr, lookups]
    constructor
    · rintro ⟨info, before, netAddr⟩
      rw [before]
      exact ⟨_, rfl, netAddr⟩
    · rintro ⟨found, known, netAddr⟩
      obtain ⟨info, before, rfl⟩ := map_eq_some_iff.mp known
      exact ⟨info, before, netAddr⟩
  · intro id found known
    rw [lookups] at known
    obtain ⟨info, before, rfl⟩ := map_eq_some_iff.mp known
    dsimp only [swappedPos]
    by_cases isFirst : id = firstId
    · exact ⟨second, by rw [if_pos isFirst], by rw [place, if_pos rfl, isFirst]⟩
    by_cases isSecond : id = secondId
    · exact ⟨first, by rw [if_neg isFirst, if_pos isSecond],
        by rw [place, if_neg differ, if_pos rfl, isSecond]⟩
    obtain ⟨pos, position, inPlace⟩ := indexed.placed id info before
    refine ⟨pos, by rw [if_neg isFirst, if_neg isSecond]; exact position, ?_⟩
    rw [place, if_neg, if_neg]
    · exact inPlace
    · rintro rfl
      rw [atFirst, some_inj] at inPlace
      exact isFirst inPlace.symm
    · rintro rfl
      rw [atSecond, some_inj] at inPlace
      exact isSecond inPlace.symm
  · intro pos id inPlace
    rw [place] at inPlace
    rw [lookups]
    split_ifs at inPlace with isSecond isFirst
    · cases inPlace
      rw [firstKnown]
      refine ⟨_, rfl, ?_⟩
      dsimp only
      rw [isSecond, swappedPos, if_pos rfl]
    · cases inPlace
      rw [secondKnown]
      refine ⟨_, rfl, ?_⟩
      dsimp only
      rw [isFirst, swappedPos, if_neg idsDiffer, if_pos rfl]
    · obtain ⟨info, known, position⟩ := indexed.listed pos id inPlace
      rw [known]
      refine ⟨_, rfl, ?_⟩
      dsimp only
      rw [swappedPos, if_neg, if_neg, position]
      · rintro rfl
        rw [secondKnown, some_inj] at known
        subst info
        omega
      · rintro rfl
        rw [firstKnown, some_inj] at known
        subst info
        omega
  · rw [order, List.length_set, List.length_set, nIdCount]
    exact indexed.fits
  · rw [nIdCount]
    exact indexed.bounded

theorem swapRandom_eq_some (indexed : man.Indexed) (differ : first ≠ second)
    (atFirst : man.vRandom[first]? = some firstId) (atSecond : man.vRandom[second]? = some secondId)
    :
    ∃ after, man.swapRandom first second = some after ∧ man.Shuffled after ∧
      after.vRandom = (man.vRandom.set first secondId).set second firstId := by
  obtain ⟨firstInfo, firstKnown, -⟩ := indexed.listed first firstId atFirst
  obtain ⟨secondInfo, secondKnown, -⟩ := indexed.listed second secondId atSecond
  have idsDiffer := indexed.ids_ne differ atFirst atSecond
  let moved := man.modifyInfo firstId fun info => { info with nRandomPos := second }
  let both := moved.modifyInfo secondId fun info => { info with nRandomPos := first }
  have movedSecond : moved.mapInfo.lookup secondId = some secondInfo :=
    (lookup_modifyInfo_of_ne idsDiffer).trans secondKnown
  have swapped : man.swapRandom first second =
      some { both with vRandom := (man.vRandom.set first secondId).set second firstId } := by
    rw [swapRandom, if_neg differ, atFirst, atSecond]
    exact if_pos ⟨mem_mapInfo firstKnown, mem_mapInfo secondKnown⟩
  have lookups : ∀ id, both.mapInfo.lookup id = (man.mapInfo.lookup id).map fun info =>
      { info with nRandomPos := swappedPos first second firstId secondId id info.nRandomPos } := by
    intro id
    by_cases isSecond : id = secondId
    · subst id
      rw [lookup_modifyInfo_self, info_eq movedSecond, secondKnown, map_some, swappedPos,
        if_neg idsDiffer, if_pos rfl]
    · rw [lookup_modifyInfo_of_ne isSecond]
      by_cases isFirst : id = firstId
      · subst id
        rw [lookup_modifyInfo_self, info_eq firstKnown, firstKnown, map_some, swappedPos,
          if_pos rfl]
      · rw [lookup_modifyInfo_of_ne isFirst]
        simp only [swappedPos, if_neg isFirst, if_neg isSecond]
        exact Option.map_id'.symm
  have counts := counts_modifyInfo (fun info => { info with nRandomPos := second }) firstKnown rfl
  have countsBoth :=
    counts_modifyInfo (fun info => { info with nRandomPos := first }) movedSecond rfl
  refine ⟨_, swapped, ?_, rfl⟩
  exact {
    rest := rfl
    entries := by
      funext id
      rw [entries, entries]
      rw [lookups, Option.map_map]
      rfl
    length := by rw [List.length_set, List.length_set]
    triedCount := countsBoth.1.trans counts.1
    newCount := countsBoth.2.trans counts.2
    indexed := indexed.swap differ atFirst atSecond rfl rfl lookups }

theorem swapRandom_succeeds (indexed : man.Indexed) (firstInside : first < man.vRandom.length)
    (secondInside : second < man.vRandom.length) :
    ∃ after, man.swapRandom first second = some after ∧ man.Shuffled after ∧
      after.vRandom[second]? = man.vRandom[first]? := by
  have atFirst := List.getElem?_eq_getElem firstInside
  have atSecond := List.getElem?_eq_getElem secondInside
  by_cases same : first = second
  · refine ⟨man, if_pos same, ⟨rfl, rfl, rfl, rfl, rfl, indexed⟩, by rw [same]⟩
  · obtain ⟨after, swapped, shuffled, order⟩ := swapRandom_eq_some indexed same atFirst atSecond
    refine ⟨after, swapped, shuffled, ?_⟩
    rw [order, List.getElem?_set_self (by rwa [List.length_set]), atFirst]

theorem Linked.shuffle (linked : man.Linked env short loose) (shuffled : man.Shuffled after) :
    after.Linked env short loose := by
  obtain ⟨nKey, -, vvTried⟩ := shuffled.framed
  have vvNew := shuffled.vvNew
  obtain ⟨rest, entries, length, triedCount, newCount, indexed⟩ := shuffled
  have nTried : after.nTried = man.nTried := by rw [rest]
  have nNew : after.nNew = man.nNew := by rw [rest]
  refine ⟨indexed, ⟨?_, ?_, ?_⟩, ?_, ?_, ?_⟩
  · rw [nTried, triedCount]
    exact linked.counted.tried
  · rw [nNew, newCount]
    exact linked.counted.new
  · rw [length, triedCount, newCount]
    exact linked.counted.all
  · rw [nKey, entries, vvTried, vvNew]
    exact linked.tables
  · rw [entries]
    exact linked.referenced
  · rw [nKey]
    exact linked.keyed

/-! ## Entries come and go -/

theorem Indexed.pop (indexed : man.Indexed) (present : man.mapInfo.lookup id = some info)
    (isLast : man.vRandom[man.vRandom.length - 1]? = some id) (nNew : Int) :
    Indexed { man with
      vRandom := man.vRandom.dropLast
      mapAddr := update man.mapAddr info.netAddr none
      mapInfo := man.mapInfo.erase id
      nNew := nNew } := by
  obtain ⟨last, lastKnown, lastPos⟩ := indexed.listed _ id isLast
  rw [present, some_inj] at lastKnown
  subst last
  have erased : ∀ {other found}, (man.mapInfo.erase id).lookup other = some found →
      other ≠ id ∧ man.mapInfo.lookup other = some found := by
    intro other found known
    rw [KeyedMap.lookup_erase_eq_ite] at known
    split_ifs at known with same
    exact ⟨same, known⟩
  have dropped : ∀ pos : ℕ, man.vRandom.dropLast[pos]? =
      if pos < man.vRandom.length - 1 then man.vRandom[pos]? else none :=
    fun pos => List.getElem?_dropLast
  refine ⟨?_, ?_, ?_, ?_, ?_, indexed.bounded⟩
  · intro other found known
    exact indexed.ids other found (erased known).2
  · intro addr other
    dsimp only
    have owner := (indexed.byAddr info.netAddr id).mpr ⟨info, present, rfl⟩
    by_cases same : addr = info.netAddr
    · subst addr
      rw [update_self]
      refine iff_of_false (Option.some_ne_none _).symm ?_
      rintro ⟨found, known, netAddr⟩
      obtain ⟨differ, before⟩ := erased known
      have otherOwner := (indexed.byAddr info.netAddr other).mpr ⟨found, before, netAddr⟩
      rw [owner, some_inj] at otherOwner
      exact differ otherOwner.symm
    · rw [update_of_ne same, indexed.byAddr]
      constructor
      · rintro ⟨found, known, netAddr⟩
        have differ : other ≠ id := by
          rintro rfl
          rw [present, some_inj] at known
          subst found
          exact same netAddr.symm
        exact ⟨found, by rw [AList.lookup_erase_ne differ]; exact known, netAddr⟩
      · rintro ⟨found, known, netAddr⟩
        exact ⟨found, (erased known).2, netAddr⟩
  · intro other found known
    obtain ⟨differ, before⟩ := erased known
    obtain ⟨pos, position, inPlace⟩ := indexed.placed other found before
    refine ⟨pos, position, ?_⟩
    have inside := (List.getElem?_eq_some_iff.mp inPlace).1
    have notLast : pos ≠ man.vRandom.length - 1 := by
      rintro rfl
      rw [isLast, some_inj] at inPlace
      exact differ inPlace.symm
    rw [dropped, if_pos (by omega)]
    exact inPlace
  · intro pos other inPlace
    rw [dropped] at inPlace
    split_ifs at inPlace with notLast
    obtain ⟨found, known, position⟩ := indexed.listed pos other inPlace
    have differ : other ≠ id := by
      rintro rfl
      rw [present, some_inj] at known
      subst found
      omega
    exact ⟨found, by rw [AList.lookup_erase_ne differ]; exact known, position⟩
  · dsimp only
    rw [List.length_dropLast]
    have fits := indexed.fits
    omega

theorem delete_eq_some (linked : man.Linked env short loose) (present : man.entries id = some entry)
    (new : entry.fInTried = false) (none : entry.nRefCount = 0) :
    ∃ after, man.delete id = some after ∧ after.Linked env short loose ∧ man.Framed after ∧
      after.vvNew = man.vvNew ∧ after.entries = update man.entries id Option.none := by
  have tables := linked.tables.remove present new none
  obtain ⟨info, known, rfl⟩ := lookup_of_entries present
  obtain ⟨pos, position, inPlace⟩ := linked.indexed.placed id info known
  have inside := (List.getElem?_eq_some_iff.mp inPlace).1
  have fits := linked.indexed.fits
  have bounded := linked.indexed.bounded
  have posEq : toUnsigned info.nRandomPos = pos := by
    rw [position]
    exact toUnsigned_natCast (by omega)
  have lastEq : toUnsigned (man.vRandom.length - 1) = man.vRandom.length - 1 := by
    have cast : (man.vRandom.length : Int) - 1 = (man.vRandom.length - 1 : ℕ) := by omega
    rw [cast]
    exact toUnsigned_natCast (by omega)
  obtain ⟨swapped, ok, shuffled, isLast⟩ := swapRandom_succeeds linked.indexed inside
    (show man.vRandom.length - 1 < man.vRandom.length by omega)
  have swappedLinked := linked.shuffle shuffled
  rw [inPlace, ← shuffled.length] at isLast
  obtain ⟨moved, movedKnown, movedEq⟩ := lookup_of_entries
    ((congrFun shuffled.entries id).trans present)
  have netAddr : moved.unplaced.netAddr = info.unplaced.netAddr := by rw [movedEq]
  have inTried : moved.unplaced.fInTried = info.unplaced.fInTried := by rw [movedEq]
  have deleted : man.delete id = some { swapped with
      vRandom := swapped.vRandom.dropLast
      mapAddr := update swapped.mapAddr info.netAddr Option.none
      mapInfo := swapped.mapInfo.erase id
      nNew := swapped.nNew - 1 } := by
    have refused : ¬(info.fInTried = true ∨ info.nRefCount ≠ 0) := by
      rintro (tried | referenced)
      · exact Bool.noConfusion (tried.symm.trans new)
      · exact referenced none
    unfold delete
    rw [known]
    dsimp only
    rw [if_neg refused, posEq, lastEq, ok]
    rfl
  have entriesEq : ∀ after : CAddrMan, after.mapInfo = swapped.mapInfo.erase id →
      after.entries = update man.entries id Option.none := by
    intro after mapInfo
    rw [← shuffled.entries]
    funext other
    rw [entries, mapInfo]
    by_cases same : other = id
    · subst other
      rw [AList.lookup_erase, update_self]
      rfl
    · rw [AList.lookup_erase_ne same, update_of_ne same]
      rfl
  have moveNew : moved.fInTried = false := inTried.trans new
  have counted := swappedLinked.counted
  have framed := shuffled.framed
  let final : CAddrMan := { swapped with
    vRandom := swapped.vRandom.dropLast
    mapAddr := update swapped.mapAddr info.netAddr Option.none
    mapInfo := swapped.mapInfo.erase id
    nNew := swapped.nNew - 1 }
  have popped : final.Indexed := by
    have popped := swappedLinked.indexed.pop movedKnown isLast (swapped.nNew - 1)
    rw [show moved.netAddr = info.netAddr from netAddr] at popped
    exact popped
  have counts := counts_erase final movedKnown moveNew rfl
  have entriesFinal : final.entries = update man.entries id Option.none := entriesEq final rfl
  refine ⟨final, deleted, ⟨popped, ⟨?_, ?_, ?_⟩, ?_, ?_, ?_⟩, ⟨?_, ?_, ?_⟩, ?_, entriesFinal⟩
  · exact counted.tried.trans counts.1.symm
  · have before := counted.new
    change swapped.nNew - 1 + short = final.newCount
    omega
  · have before := counted.all
    rw [List.length_dropLast]
    have length := shuffled.length
    omega
  · rw [entriesFinal]
    rw [framed.nKey, framed.vvTried, shuffled.vvNew]
    exact tables
  · rw [entriesFinal]
    exact linked.referenced.remove
  · exact swappedLinked.keyed
  · exact framed.nKey
  · exact framed.nIdCount
  · exact framed.vvTried
  · exact shuffled.vvNew

/-! ## Entries change -/

section Changes

variable {env : AddrEnv} {short : Int} {loose : Int → Prop}

theorem Linked.modify (linked : man.Linked env short loose) (change : CAddrInfo → CAddrInfo)
    (after : CAddrMan) (shortAfter : Int) (looseAfter : Int → Prop)
    (present : man.entries id = some entry)
    (commutes : ∀ info : CAddrInfo, (change info).unplaced = change info.unplaced)
    (netAddr : ∀ info : CAddrInfo, (change info).netAddr = info.netAddr)
    (position : ∀ info : CAddrInfo, (change info).nRandomPos = info.nRandomPos)
    (rest : after = { man.modifyInfo id change with
      vvTried := after.vvTried, vvNew := after.vvNew, nTried := after.nTried, nNew := after.nNew })
    (triedStep : after.nTried = man.nTried + (if (change entry).fInTried then 1 else 0) -
      (if entry.fInTried then 1 else 0))
    (newStep : after.nNew + shortAfter = man.nNew + short +
      (if (change entry).fInTried then 0 else 1) - (if entry.fInTried then 0 else 1))
    (tables : AddrTables env man.nKey (update man.entries id (some (change entry)))
      after.vvTried after.vvNew)
    (referenced : Referenced looseAfter (update man.entries id (some (change entry)))) :
    after.Linked env shortAfter looseAfter ∧
      after.entries = update man.entries id (some (change entry)) := by
  have entriesEq : after.entries = update man.entries id (some (change entry)) := by
    rw [← entries_modifyInfo present commutes, rest]
    rfl
  obtain ⟨info, known, rfl⟩ := lookup_of_entries present
  have tried := triedCount_modifyInfo change known
  have new := newCount_modifyInfo change known
  have inTried : (change info).fInTried = (change info.unplaced).fInTried := by
    rw [← commutes]
    rfl
  have inTriedBefore : info.unplaced.fInTried = info.fInTried := rfl
  rw [inTriedBefore, ← inTried] at triedStep newStep
  have triedEq : after.triedCount = (man.modifyInfo id change).triedCount := by
    rw [rest]
    rfl
  have newEq : after.newCount = (man.modifyInfo id change).newCount := by
    rw [rest]
    rfl
  have vRandom : after.vRandom = man.vRandom := by
    rw [rest]
    rfl
  have nKey : after.nKey = man.nKey := by
    rw [rest]
    rfl
  have before := linked.counted
  refine ⟨⟨?_, ⟨?_, ?_, ?_⟩, ?_, ?_, ?_⟩, entriesEq⟩
  · rw [rest]
    have indexed := linked.indexed.modifyInfo known (netAddr info) (position info)
    exact ⟨indexed.ids, indexed.byAddr, indexed.placed, indexed.listed, indexed.fits,
      indexed.bounded⟩
  · have exact := before.tried
    omega
  · have exact := before.new
    omega
  · rw [vRandom, before.all, triedEq, newEq]
    split_ifs at tried new <;> omega
  · rw [entriesEq, nKey]
    exact tables
  · rw [entriesEq]
    exact referenced
  · rw [nKey]
    exact linked.keyed

/-- A write that leaves the tables alone. -/
theorem Linked.write (linked : man.Linked env short loose) (change : CAddrInfo → CAddrInfo)
    (present : man.entries id = some entry)
    (commutes : ∀ info : CAddrInfo, (change info).unplaced = change info.unplaced)
    (service : ∀ info : CAddrInfo, (change info).service = info.service)
    (position : ∀ info : CAddrInfo, (change info).nRandomPos = info.nRandomPos)
    (inTried : (change entry).fInTried = entry.fInTried)
    (refCount : (change entry).nRefCount = entry.nRefCount) (sound : (change entry).Sound) :
    (man.modifyInfo id change).Linked env short loose ∧
      (man.modifyInfo id change).entries = update man.entries id (some (change entry)) := by
  refine linked.modify change _ short loose present commutes
    (fun info => congrArg CService.ip (service info)) position rfl ?_ ?_
    (linked.tables.update present (service entry) inTried refCount sound) ?_
  · rw [inTried]
    exact (add_sub_cancel_right _ _).symm
  · rw [inTried]
    exact (add_sub_cancel_right _ _).symm
  · refine linked.referenced.update fun new kept => ?_
    rw [refCount]
    exact linked.referenced id entry present (inTried.symm.trans new) kept

theorem nRefCount_info (present : man.entries id = some entry) :
    (man.info id).nRefCount = entry.nRefCount := by
  rw [← unplaced_info present]
  rfl

theorem Linked.leaveNew (linked : man.Linked env short loose) {place : NewPlace}
    (present : man.entries id = some entry) (holds : man.vvNew place = id) :
    ((man.modifyInfo id fun info => { info with nRefCount := info.nRefCount - 1 }).setNew
        place (-1)).Linked env short (fun other => loose other ∨ other = id) ∧
      ((man.modifyInfo id fun info => { info with nRefCount := info.nRefCount - 1 }).setNew
        place (-1)).entries = update man.entries id
          (some { entry with nRefCount := entry.nRefCount - 1 }) := by
  exact linked.modify (fun info => { info with nRefCount := info.nRefCount - 1 }) _ short _ present
    (fun _ => rfl) (fun _ => rfl) (fun _ => rfl) rfl (add_sub_cancel_right _ _).symm
    (add_sub_cancel_right _ _).symm (linked.tables.leaveNew present holds)
    linked.referenced.update_loose

theorem clearNew_eq_some (linked : man.Linked env short loose) (place : NewPlace) :
    ∃ after, man.clearNew place = some after ∧ after.Linked env short loose ∧ man.Framed after ∧
      after.vvNew = update man.vvNew place (-1) ∧
      ∀ id, id ≠ man.vvNew place → after.entries id = man.entries id := by
  by_cases free : man.vvNew place = -1
  · refine ⟨man, if_pos free, linked, ⟨rfl, rfl, rfl⟩, ?_, fun _ _ => rfl⟩
    rw [← free, Function.update_eq_self]
  obtain ⟨entry, present, -⟩ := linked.tables.new place free
  have positive := linked.tables.refCount_pos present rfl
  have newEntry := linked.tables.not_tried_of_new present rfl
  obtain ⟨left, entriesLeft⟩ := linked.leaveNew present rfl
  generalize leaves : (man.modifyInfo (man.vvNew place) fun info =>
    { info with nRefCount := info.nRefCount - 1 }).setNew place (-1) = leaving at left entriesLeft
  have here : leaving.entries (man.vvNew place) =
      some { entry with nRefCount := entry.nRefCount - 1 } := by
    rw [entriesLeft, update_self]
  have framed : man.Framed leaving := by
    rw [← leaves]
    exact ⟨rfl, rfl, rfl⟩
  have vvNew : leaving.vvNew = update man.vvNew place (-1) := by
    rw [← leaves]
    rfl
  have others : ∀ id, id ≠ man.vvNew place → leaving.entries id = man.entries id := by
    intro id differ
    rw [entriesLeft, update_of_ne differ]
  have cleared : man.clearNew place =
      if entry.nRefCount - 1 = 0 then leaving.delete (man.vvNew place) else some leaving := by
    have count : (leaving.info (man.vvNew place)).nRefCount = entry.nRefCount - 1 :=
      nRefCount_info here
    rw [← count, ← leaves]
    rw [clearNew, if_neg free, if_neg]
    rw [nRefCount_info present]
    omega
  rw [cleared]
  by_cases last : entry.nRefCount - 1 = 0
  · rw [if_pos last]
    obtain ⟨after, deleted, linkedAfter, framedAfter, vvNewAfter, entriesAfter⟩ :=
      delete_eq_some left here newEntry last
    refine ⟨after, deleted, ?_, ?_, vvNewAfter.trans vvNew, fun id differ => ?_⟩
    · refine { linkedAfter with referenced := linkedAfter.referenced.of_settled ?_ }
      intro gone known
      rw [entriesAfter, update_self] at known
      cases known
    · exact ⟨framedAfter.nKey.trans framed.nKey, framedAfter.nIdCount.trans framed.nIdCount,
        framedAfter.vvTried.trans framed.vvTried⟩
    · rw [entriesAfter, update_of_ne differ, others id differ]
  · rw [if_neg last]
    refine ⟨leaving, rfl, ?_, framed, vvNew, others⟩
    refine { left with referenced := left.referenced.of_settled ?_ }
    intro found known new
    rw [here, some_inj] at known
    rw [← known]
    dsimp only
    omega

theorem Linked.enterNew (linked : man.Linked env short fun other => loose other ∨ other = id)
    {place : NewPlace} (present : man.entries id = some entry) (new : entry.fInTried = false)
    (below : entry.nRefCount < newBucketsPerAddress) (free : man.vvNew place = -1)
    (hashed : entry.newPlace env man.nKey place.1 = place) :
    ((man.modifyInfo id fun info => { info with nRefCount := info.nRefCount + 1 }).setNew
        place id).Linked env short loose := by
  have nonneg := linked.tables.refCount_nonneg present
  obtain ⟨entered, entriesEntered⟩ := linked.modify
    (fun info => { info with nRefCount := info.nRefCount + 1 })
    ((man.modifyInfo id fun info => { info with nRefCount := info.nRefCount + 1 }).setNew place id)
    short _ present (fun _ => rfl) (fun _ => rfl) (fun _ => rfl) rfl (add_sub_cancel_right _ _).symm
    (add_sub_cancel_right _ _).symm (linked.tables.enterNew present new below free hashed)
    (linked.referenced.update fun _ kept => absurd (.inr rfl) kept)
  refine { entered with referenced := entered.referenced.of_settled ?_ }
  intro found known _
  rw [entriesEntered, update_self, some_inj] at known
  rw [← known]
  dsimp only
  omega

theorem Linked.shift (linked : man.Linked env short loose) (nNew shortAfter : Int)
    (exact : nNew + shortAfter = man.nNew + short) :
    Linked env shortAfter loose { man with nNew := nNew } :=
  ⟨⟨linked.indexed.ids, linked.indexed.byAddr, linked.indexed.placed, linked.indexed.listed,
      linked.indexed.fits, linked.indexed.bounded⟩,
    ⟨linked.counted.tried, exact.trans linked.counted.new, linked.counted.all⟩,
    linked.tables, linked.referenced, linked.keyed⟩

theorem Indexed.lookup_nIdCount (indexed : man.Indexed) :
    man.mapInfo.lookup man.nIdCount = none := by
  rw [Option.eq_none_iff_forall_ne_some]
  intro info known
  have below := (indexed.ids _ info known).2
  omega

theorem Indexed.create (indexed : man.Indexed) {addr : CAddress} {addrSource : CNetAddr}
    (absent : man.mapAddr addr.netAddr = none) (room : man.nIdCount < 2 ^ 31 - 1) :
    (man.create addr addrSource).Indexed := by
  have fits := indexed.fits
  have here : (man.create addr addrSource).mapInfo.lookup man.nIdCount =
      some { addr with source := addrSource, nRandomPos := man.vRandom.length } :=
    AList.lookup_insert man.mapInfo
  have others : ∀ {other}, other ≠ man.nIdCount →
      (man.create addr addrSource).mapInfo.lookup other = man.mapInfo.lookup other :=
    fun differ => AList.lookup_insert_ne differ
  have known_ne : ∀ {other info}, man.mapInfo.lookup other = some info → other ≠ man.nIdCount := by
    rintro other info known rfl
    rw [indexed.lookup_nIdCount] at known
    cases known
  have order : (man.create addr addrSource).vRandom = man.vRandom ++ [man.nIdCount] := rfl
  refine ⟨?_, ?_, ?_, ?_, ?_, ?_⟩
  · change ∀ other info, _ → 0 ≤ other ∧ other < man.nIdCount + 1
    refine KeyedMap.forall_insert (by omega) fun other info known => ?_
    have before := indexed.ids other info known
    omega
  · intro netAddr other
    change update man.mapAddr addr.netAddr (some man.nIdCount) netAddr = some other ↔ _
    by_cases sameAddr : netAddr = addr.netAddr
    · subst netAddr
      rw [update_self]
      constructor
      · rintro same
        cases same
        exact ⟨_, here, rfl⟩
      · rintro ⟨info, known, netAddr⟩
        by_cases same : other = man.nIdCount
        · rw [same]
        · rw [others same] at known
          have owner := (indexed.byAddr _ _).mpr ⟨info, known, netAddr⟩
          rw [absent] at owner
          cases owner
    · rw [update_of_ne sameAddr, indexed.byAddr]
      constructor
      · rintro ⟨info, known, netAddr⟩
        exact ⟨info, by rw [others (known_ne known)]; exact known, netAddr⟩
      · rintro ⟨info, known, netAddr⟩
        by_cases same : other = man.nIdCount
        · subst other
          rw [here, some_inj] at known
          subst info
          exact absurd netAddr.symm sameAddr
        · rw [others same] at known
          exact ⟨info, known, netAddr⟩
  · refine KeyedMap.forall_insert ⟨man.vRandom.length, rfl, ?_⟩ fun other info known => ?_
    · rw [order, List.getElem?_concat_length]
    · obtain ⟨pos, position, inPlace⟩ := indexed.placed other info known
      refine ⟨pos, position, ?_⟩
      rw [order, List.getElem?_append_left (List.getElem?_eq_some_iff.mp inPlace).1]
      exact inPlace
  · intro pos other inPlace
    rw [order] at inPlace
    by_cases inside : pos < man.vRandom.length
    · rw [List.getElem?_append_left inside] at inPlace
      obtain ⟨info, known, position⟩ := indexed.listed pos other inPlace
      exact ⟨info, by rw [others (known_ne known)]; exact known, position⟩
    · have isLast : pos = man.vRandom.length := by
        have bound := (List.getElem?_eq_some_iff.mp inPlace).1
        rw [List.length_append, List.length_singleton] at bound
        omega
      rw [isLast, List.getElem?_concat_length, some_inj] at inPlace
      rw [← inPlace, isLast]
      exact ⟨_, here, rfl⟩
  · rw [order, List.length_append, List.length_singleton]
    change _ ≤ man.nIdCount + 1
    omega
  · change man.nIdCount + 1 < 2 ^ 31
    omega

/-- `Create` makes an entry without a place, which is not counted yet. -/
theorem Linked.create (linked : man.Linked env short loose) (addr : CAddress)
    (addrSource : CNetAddr) (absent : man.mapAddr addr.netAddr = none)
    (room : man.nIdCount < 2 ^ 31 - 1) :
    (man.create addr addrSource).Linked env (short + 1)
        (fun other => loose other ∨ other = man.nIdCount) ∧
      (man.create addr addrSource).entries = update man.entries man.nIdCount
        (some { addr with source := addrSource, nRandomPos := 0 }) := by
  have fresh := linked.indexed.lookup_nIdCount
  have freshEntry : man.entries man.nIdCount = none := by
    rw [entries, fresh, Option.map_none]
  have fits := linked.indexed.fits
  have entriesEq : (man.create addr addrSource).entries = update man.entries
      man.nIdCount (some { addr with source := addrSource, nRandomPos := 0 }) := by
    funext other
    by_cases same : other = man.nIdCount
    · subst other
      rw [update_self, entries, CAddrMan.create, AList.lookup_insert]
      rfl
    · rw [update_of_ne same, entries, CAddrMan.create, AList.lookup_insert_ne same, entries]
  have tried := KeyedMap.total_insert
    (fun info : CAddrInfo => if info.fInTried then (1 : Int) else 0)
    { addr with source := addrSource, nRandomPos := man.vRandom.length } fresh
  have new := KeyedMap.total_insert
    (fun info : CAddrInfo => if info.fInTried then (0 : Int) else 1)
    { addr with source := addrSource, nRandomPos := man.vRandom.length } fresh
  have triedEq : (man.create addr addrSource).triedCount = man.triedCount :=
    tried.trans (zero_add _)
  have newEq : (man.create addr addrSource).newCount = 1 + man.newCount := new
  have counted := linked.counted
  refine ⟨⟨linked.indexed.create absent room, ⟨?_, ?_, ?_⟩, ?_, ?_, linked.keyed⟩, entriesEq⟩
  · rw [triedEq]
    exact counted.tried
  · rw [newEq]
    change man.nNew + (short + 1) = 1 + man.newCount
    have before := counted.new
    omega
  · have before := counted.all
    change ((man.vRandom ++ [man.nIdCount]).length : Int) = _
    rw [List.length_append, List.length_singleton]
    omega
  · rw [entriesEq]
    refine linked.tables.insert (by omega) freshEntry rfl rfl ?_
    exact ⟨le_refl _, le_refl _, nofun, nofun, show (0 : Int) ≤ 8 by decide⟩
  · rw [entriesEq]
    exact linked.referenced.update_loose

end Changes

end CAddrMan

end DogeCash
