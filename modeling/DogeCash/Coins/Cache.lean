import DogeCash.Coins.View
import DogeCash.Foundation.KeyedMap
import DogeCash.Foundation.Run

/-! # Stacks of coin caches

`CCoinsViewCache` keeps entries of the view below it in memory. A read that
misses asks the view below and keeps the answer, which may itself be a cache and
do the same; a write marks the entry `DIRTY`, and `FRESH` if the view below has
nothing there; `Flush` hands the dirty entries to the view below. At the bottom
stands a view that is not a cache, such as the coin database.
-/

namespace DogeCash

/-- `CCoinsCacheEntry`, the flags as two booleans. -/
structure CCoinsCacheEntry where
  coins : CCoins
  dirty : Bool
  fresh : Bool

abbrev CCoinsMap := AList fun _ : UInt256 => CCoinsCacheEntry

/-- `CCoinsViewCache`; `hashBlock` is zero as long as it is not known. -/
structure CCoinsViewCache where
  cacheCoins : CCoinsMap := ∅
  hashBlock : UInt256 := 0

/-- The coins an answer of `GetCoins` stands for. -/
def coinsOf (answer : Option CCoins) : CCoins := answer.getD {}

/-- A view at the bottom of a stack, with states of type `β`: what `GetCoins`,
`GetBestBlock` and `BatchWrite` do. `BatchWrite` writes the dirty entries, a
pruned entry counting as none, and a block hash unless it is zero. -/
structure CCoinsBase (β : Type) where
  getCoins : β → UInt256 → Option CCoins
  getBestBlock : β → UInt256
  batchWrite : β → CCoinsMap → UInt256 → β
  getCoins_clean : ∀ base txid coins, getCoins base txid = some coins → coins.cleanup = coins
  getCoins_batchWrite_dirty : ∀ base mapCoins hashBlock txid entry,
    mapCoins.lookup txid = some entry → entry.dirty = true → entry.coins.cleanup = entry.coins →
      (coinsOf (getCoins (batchWrite base mapCoins hashBlock) txid)).same entry.coins = true
  getCoins_batchWrite_other : ∀ base mapCoins hashBlock txid,
    (∀ entry, mapCoins.lookup txid = some entry → entry.dirty = false ∧
      entry.coins.same (coinsOf (getCoins base txid)) = true) →
      (coinsOf (getCoins (batchWrite base mapCoins hashBlock) txid)).same
        (coinsOf (getCoins base txid)) = true
  getBestBlock_batchWrite : ∀ base mapCoins hashBlock,
    getBestBlock (batchWrite base mapCoins hashBlock) = hashBlock ∨
      hashBlock = 0 ∧ getBestBlock (batchWrite base mapCoins hashBlock) = getBestBlock base

/-- Caches over a base view, the top one first. -/
structure CacheStack (β : Type) where
  caches : List CCoinsViewCache
  base : β

namespace CacheStack

variable {β : Type} (view : CCoinsBase β)

/-- The entry `FetchCoins` keeps of an answer from the view below. -/
def fetchedEntry (coins : CCoins) : CCoinsCacheEntry := ⟨coins, false, coins.isPruned⟩

/-- `GetCoins` on the top of the stack. `FetchCoins` fills the caches on the
way. -/
def getCoins (base : β) (txid : UInt256) :
    List CCoinsViewCache → List CCoinsViewCache × Option CCoins
  | [] => ([], view.getCoins base txid)
  | cache :: below =>
    match cache.cacheCoins.lookup txid with
    | some entry => (cache :: below, some entry.coins)
    | none =>
      match getCoins base txid below with
      | (below, none) => (cache :: below, none)
      | (below, some coins) =>
        ({ cache with cacheCoins := cache.cacheCoins.insert txid (fetchedEntry coins) } ::
          below, some coins)

/-- `HaveCoins`, which looks at `vout` only. -/
def haveCoins (base : β) (txid : UInt256) (caches : List CCoinsViewCache) : Bool :=
  match (getCoins view base txid caches).2 with
  | some coins => !coins.vout.isEmpty
  | none => false

/-- The entry `ModifyCoins` works on when the cache has none. -/
def newEntry : Option CCoins → CCoinsCacheEntry
  | none => ⟨{}, false, true⟩
  | some coins => ⟨coins, false, coins.isPruned⟩

/-- The modification of an entry and the destructor of `CCoinsModifier`: `none`
is the removal of the entry. -/
def modifiedEntry (entry : CCoinsCacheEntry) (modification : CCoins → CCoins) :
    Option CCoinsCacheEntry :=
  let coins := (modification entry.coins).cleanup
  if entry.fresh && coins.isPruned then none else some { entry with coins := coins, dirty := true }

/-- `ModifyCoins` on a cache, with what is done through the modifier. -/
def modifyCoins (base : β) (txid : UInt256) (modification : CCoins → CCoins)
    (cache : CCoinsViewCache) (below : List CCoinsViewCache) : List CCoinsViewCache :=
  match cache.cacheCoins.lookup txid with
  | some entry =>
    { cache with
      cacheCoins := KeyedMap.put cache.cacheCoins txid (modifiedEntry entry modification) } ::
      below
  | none =>
    let (filled, answer) := getCoins view base txid below
    { cache with
      cacheCoins :=
        KeyedMap.put cache.cacheCoins txid (modifiedEntry (newEntry answer) modification) } ::
      filled

/-- `GetBestBlock` on the top of the stack, which remembers the answer. -/
def getBestBlock (base : β) : List CCoinsViewCache → List CCoinsViewCache × UInt256
  | [] => ([], view.getBestBlock base)
  | cache :: below =>
    if cache.hashBlock = 0 then
      let (below, hashBlock) := getBestBlock base below
      ({ cache with hashBlock := hashBlock } :: below, hashBlock)
    else (cache :: below, cache.hashBlock)

/-- One entry in the loop of `CCoinsViewCache::BatchWrite`: what becomes of the
entry `itUs` of the cache, `none` where the assertion fails. -/
def mergeEntry (itUs : Option CCoinsCacheEntry) (it : CCoinsCacheEntry) :
    Option (Option CCoinsCacheEntry) :=
  if it.dirty then
    match itUs with
    | none =>
      if it.coins.isPruned then some none
      else if it.fresh then some (some ⟨it.coins, true, true⟩)
      else none
    | some us =>
      if us.fresh && it.coins.isPruned then some none
      else some (some { us with coins := it.coins, dirty := true })
  else some itUs

def batchWrite (cache : CCoinsViewCache) (mapCoins : CCoinsMap) (hashBlock : UInt256) :
    Option CCoinsViewCache :=
  match KeyedMap.mergeAll mergeEntry cache.cacheCoins mapCoins with
  | none => none
  | some cacheCoins => some ⟨cacheCoins, hashBlock⟩

/-- `Flush` of the top cache, which is then dropped. -/
def flush : CacheStack β → Option (CacheStack β)
  | ⟨[], _⟩ => none
  | ⟨[cache], base⟩ => some ⟨[], view.batchWrite base cache.cacheCoins cache.hashBlock⟩
  | ⟨cache :: parent :: below, base⟩ =>
    match batchWrite parent cache.cacheCoins cache.hashBlock with
    | none => none
    | some parent => some ⟨parent :: below, base⟩

inductive Op where
  | accessCoins (txid : UInt256)
  | haveCoins (txid : UInt256)
  | getCoins (txid : UInt256)
  | modifyCoins (txid : UInt256) (modification : CCoins → CCoins)
  | setBestBlock (hashBlock : UInt256)
  | getBestBlock
  | push
  | flush

/-- An operation on the stack: `none` when the top of the stack is not a cache
and where the assertion of `BatchWrite` fails. -/
def step : Op → CacheStack β → Option (CacheStack β)
  | .push, stack => some { stack with caches := {} :: stack.caches }
  | .flush, stack => stack.flush view
  | _, ⟨[], _⟩ => none
  | .accessCoins txid, stack | .haveCoins txid, stack | .getCoins txid, stack =>
    some { stack with caches := (getCoins view stack.base txid stack.caches).1 }
  | .modifyCoins txid modification, ⟨cache :: below, base⟩ =>
    some ⟨modifyCoins view base txid modification cache below, base⟩
  | .setBestBlock hashBlock, ⟨cache :: below, base⟩ =>
    some ⟨{ cache with hashBlock := hashBlock } :: below, base⟩
  | .getBestBlock, stack =>
    some { stack with caches := (getBestBlock view stack.base stack.caches).1 }

def seenCoins (stack : CacheStack β) : CoinsMap := fun txid =>
  coinsOf (getCoins view stack.base txid stack.caches).2

def seenBestBlock (stack : CacheStack β) : UInt256 := (getBestBlock view stack.base stack.caches).2

end CacheStack

/-! ## The coin database -/

/-- `CCoinsViewDB`: the records `'c'` and `'B'` of the database. -/
structure CCoinsViewDB where
  coins : AList fun _ : UInt256 => CCoins := ∅
  hashBestChain : Option UInt256 := none

namespace CCoinsViewDB

/-- `CCoinsViewDB::GetCoins`; reading a record ends with `Cleanup`. -/
def getCoins (db : CCoinsViewDB) (txid : UInt256) : Option CCoins :=
  (db.coins.lookup txid).map CCoins.cleanup

def getBestBlock (db : CCoinsViewDB) : UInt256 := db.hashBestChain.getD 0

/-- One entry in the loop of `CCoinsViewDB::BatchWrite`: a dirty entry is written,
or erased when it is pruned. -/
def writeCoins (record : Option CCoins) (entry : CCoinsCacheEntry) : Option (Option CCoins) :=
  some (if entry.dirty then (if entry.coins.isPruned then none else some entry.coins) else record)

def batchWrite (db : CCoinsViewDB) (mapCoins : CCoinsMap) (hashBlock : UInt256) : CCoinsViewDB where
  coins := (KeyedMap.mergeAll writeCoins db.coins mapCoins).getD db.coins
  hashBestChain := if hashBlock ≠ 0 then some hashBlock else db.hashBestChain

theorem lookup_batchWrite (db : CCoinsViewDB) (mapCoins : CCoinsMap) (hashBlock txid : UInt256) :
    (db.batchWrite mapCoins hashBlock).coins.lookup txid =
      match mapCoins.lookup txid with
      | none => db.coins.lookup txid
      | some entry => (writeCoins (db.coins.lookup txid) entry).getD none := by
  obtain ⟨result, merged, lookups⟩ := KeyedMap.mergeAll_eq_some
    writeCoins db.coins mapCoins fun _ _ _ => rfl
  have written : (db.batchWrite mapCoins hashBlock).coins = result := by
    simp [batchWrite, merged]
  rw [written, lookups]
  cases mapCoins.lookup txid <;> rfl

/-- The coin database is a view to put caches on. -/
def base : CCoinsBase CCoinsViewDB where
  getCoins := getCoins
  getBestBlock := getBestBlock
  batchWrite := batchWrite
  getCoins_clean db txid coins answer := by
    obtain ⟨record, -, rfl⟩ := Option.map_eq_some_iff.mp answer
    exact CCoins.cleanup_cleanup record
  getCoins_batchWrite_dirty db mapCoins hashBlock txid entry present dirty clean := by
    rw [getCoins, lookup_batchWrite, present]
    simp only [writeCoins, dirty, ↓reduceIte, Option.getD_some]
    by_cases pruned : entry.coins.isPruned = true
    · simp only [pruned, ↓reduceIte, Option.map_none]
      exact CCoins.same_iff.mpr (.inl ⟨rfl, pruned⟩)
    · simp only [pruned, Bool.false_eq_true, ↓reduceIte, Option.map_some, clean]
      exact CCoins.same_refl _
  getCoins_batchWrite_other db mapCoins hashBlock txid unchanged := by
    have same : (db.batchWrite mapCoins hashBlock).coins.lookup txid = db.coins.lookup txid := by
      rw [lookup_batchWrite]
      cases present : mapCoins.lookup txid with
      | none => rfl
      | some entry => simp [writeCoins, (unchanged entry present).1]
    rw [getCoins, same]
    exact CCoins.same_refl _
  getBestBlock_batchWrite db mapCoins hashBlock := by
    by_cases zero : hashBlock = 0
    · exact .inr ⟨zero, by rw [getBestBlock, batchWrite, if_neg (not_not.mpr zero)]; rfl⟩
    · exact .inl (by rw [getBestBlock, batchWrite, if_pos zero]; rfl)

end CCoinsViewDB

end DogeCash
