import DogeCash.Coins.Cache

/-! # A stack of caches is a map

`FlatView` is what a stack of caches stands for: one map, one best block. The
stack refines it (`CacheStack.Refines`): an entry of a cache that is not dirty
agrees with the view below, a fresh one has nothing below, and one that is not
fresh is also in the cache below. With this invariant, `CacheStack.run_refines`
follows the operations one by one.
-/

namespace DogeCash

open List (map_cons map_nil)
open CCoins (same_iff same_refl same_symm same_trans)
open CoinsMap (modifyCoins_of_ne modifyCoins_self)

/-- The coins and the best block a stack stands for; `known` tells for each cache,
top one first, whether its best block has been set or read. -/
structure FlatView where
  coins : CoinsMap
  bestBlock : UInt256
  known : List Bool

namespace FlatView

/-- The operations on the map itself. They need a cache on top; a cache is flushed
when its best block is known, and the zero hash is not the hash of a block. -/
def step : CacheStack.Op → FlatView → Option FlatView
  | .push, flat => some { flat with known := false :: flat.known }
  | .flush, ⟨coins, bestBlock, [true]⟩ => some ⟨coins, bestBlock, []⟩
  | .flush, ⟨coins, bestBlock, true :: _ :: known⟩ => some ⟨coins, bestBlock, true :: known⟩
  | .modifyCoins txid modification, ⟨coins, bestBlock, first :: known⟩ =>
    some ⟨coins.modifyCoins txid modification, bestBlock, first :: known⟩
  | .setBestBlock hashBlock, ⟨coins, _, _ :: known⟩ =>
    if hashBlock = 0 then none else some ⟨coins, hashBlock, true :: known⟩
  | .getBestBlock, ⟨coins, bestBlock, _ :: known⟩ => some ⟨coins, bestBlock, true :: known⟩
  | .accessCoins _, ⟨coins, bestBlock, first :: known⟩
  | .haveCoins _, ⟨coins, bestBlock, first :: known⟩
  | .getCoins _, ⟨coins, bestBlock, first :: known⟩ => some ⟨coins, bestBlock, first :: known⟩
  | _, _ => none

end FlatView

namespace CacheStack

variable {β : Type} (view : CCoinsBase β) (base : β)

/-- What `GetCoins` answers, without filling the caches. -/
def readCoins : List CCoinsViewCache → UInt256 → Option CCoins
  | [], txid => view.getCoins base txid
  | cache :: below, txid =>
    match cache.cacheCoins.lookup txid with
    | some entry => some entry.coins
    | none => readCoins below txid

/-- What `GetBestBlock` answers, from the hashes the caches hold. -/
def readBestBlock : List UInt256 → UInt256
  | [] => view.getBestBlock base
  | hashBlock :: below => if hashBlock = 0 then readBestBlock below else hashBlock

def HasEntry : List CCoinsViewCache → UInt256 → Prop
  | [], _ => True
  | cache :: _, txid => (cache.cacheCoins.lookup txid).isSome

/-- How an entry relates to the view below its cache. -/
structure EntryCoherent (below : List CCoinsViewCache) (txid : UInt256)
    (entry : CCoinsCacheEntry) : Prop where
  clean : entry.coins.cleanup = entry.coins
  unchanged : entry.dirty = false →
    entry.coins.same (coinsOf (readCoins view base below txid)) = true
  nothingBelow : entry.fresh = true → (coinsOf (readCoins view base below txid)).isPruned = true
  alsoBelow : entry.fresh = false → HasEntry below txid

/-- Every entry of every cache is coherent with the view below. -/
def Coherent : List CCoinsViewCache → Prop
  | [] => True
  | cache :: below => Coherent below ∧
      ∀ txid entry, cache.cacheCoins.lookup txid = some entry →
        EntryCoherent view base below txid entry

/-- A cache whose best block is known to be zero stands above a view without
best block. -/
def KnownBlocks : List UInt256 → List Bool → Prop
  | [], [] => True
  | hashBlock :: below, known :: rest =>
    (known = true → hashBlock ≠ 0 ∨ readBestBlock view base below = 0) ∧ KnownBlocks below rest
  | _, _ => False

/-- The caches have been filled by reads: the answers are the same. -/
structure Filled (before after : List CCoinsViewCache) : Prop where
  coins : ∀ txid, readCoins view base after txid = readCoins view base before txid
  entries : ∀ txid, HasEntry before txid → HasEntry after txid

variable {view base}

theorem Filled.refl (caches : List CCoinsViewCache) : Filled view base caches caches :=
  ⟨fun _ => rfl, fun _ present => present⟩

variable {before after : List CCoinsViewCache} {txid : UInt256} {caches : List CCoinsViewCache}
    {cache : CCoinsViewCache} {below : List CCoinsViewCache}

variable {entry : CCoinsCacheEntry} {below after : List CCoinsViewCache} {known : List Bool}
    {cache parent : CCoinsViewCache} {stack : CacheStack β}

theorem EntryCoherent.filled (coherent : EntryCoherent view base before txid entry)
    (filled : Filled view base before after) :
    EntryCoherent view base after txid entry where
  clean := coherent.clean
  unchanged := by
    rw [filled.coins]
    exact coherent.unchanged
  nothingBelow := by
    rw [filled.coins]
    exact coherent.nothingBelow
  alsoBelow old := filled.entries txid (coherent.alsoBelow old)

theorem Filled.of_cacheCoins
    (same : after.map CCoinsViewCache.cacheCoins = before.map CCoinsViewCache.cacheCoins) :
    Filled view base before after := by
  induction before generalizing after with
  | nil =>
    rw [map_nil, List.map_eq_nil_iff] at same
    subst same
    exact Filled.refl []
  | cons cache below ih =>
    rw [map_cons, List.map_eq_cons_iff] at same
    obtain ⟨other, rest, rfl, sameCoins, sameRest⟩ := same
    refine ⟨fun txid => ?_, fun txid => ?_⟩
    · simp only [readCoins, sameCoins, (ih sameRest).coins]
    · simp [HasEntry, sameCoins]

theorem Coherent.of_cacheCoins (coherent : Coherent view base before)
    (same : after.map CCoinsViewCache.cacheCoins = before.map CCoinsViewCache.cacheCoins) :
    Coherent view base after := by
  induction before generalizing after with
  | nil =>
    rw [map_nil, List.map_eq_nil_iff] at same
    subst same
    trivial
  | cons cache below ih =>
    rw [map_cons, List.map_eq_cons_iff] at same
    obtain ⟨other, rest, rfl, sameCoins, sameRest⟩ := same
    refine ⟨ih coherent.1 sameRest, fun txid entry present => ?_⟩
    rw [sameCoins] at present
    exact (coherent.2 txid entry present).filled (Filled.of_cacheCoins sameRest)

theorem Coherent.clean (coherent : Coherent view base caches) {coins : CCoins}
    (answer : readCoins view base caches txid = some coins) :
    coins.cleanup = coins := by
  induction caches with
  | nil => exact view.getCoins_clean base txid coins answer
  | cons cache below ih =>
    rw [readCoins] at answer
    split at answer
    · rename_i entry present
      cases answer
      exact (coherent.2 txid entry present).clean
    · exact ih coherent.1 answer

theorem readCoins_put (cache : CCoinsViewCache) (below : List CCoinsViewCache)
    (txid other : UInt256) (entry : Option CCoinsCacheEntry) :
    readCoins view base
        ({ cache with cacheCoins := KeyedMap.put cache.cacheCoins txid entry } :: below) other =
      if other = txid then
        match entry with
        | some entry => some entry.coins
        | none => readCoins view base below txid
      else readCoins view base (cache :: below) other := by
  simp only [readCoins, KeyedMap.lookup_put]
  by_cases same : other = txid
  · subst same
    cases entry <;> simp
  · simp [same]

theorem hasEntry_put {txid other : UInt256} (present : HasEntry (cache :: below) other) :
    HasEntry ({ cache with cacheCoins := KeyedMap.put cache.cacheCoins txid (some entry) } :: after)
      other := by
  simp only [HasEntry, KeyedMap.lookup_put]
  by_cases same : other = txid
  · simp [same]
  · simp only [same, ↓reduceIte]
    exact present

theorem Coherent.put (coherent : Coherent view base (cache :: below))
    (filled : Filled view base below after) (afterCoherent : Coherent view base after)
    {entry : Option CCoinsCacheEntry}
    (valid : ∀ value, entry = some value → EntryCoherent view base after txid value) :
    Coherent view base
      ({ cache with cacheCoins := KeyedMap.put cache.cacheCoins txid entry } :: after) := by
  refine ⟨afterCoherent, fun other value present => ?_⟩
  rw [KeyedMap.lookup_put] at present
  by_cases same : other = txid
  · subst same
    rw [if_pos rfl] at present
    exact valid value present
  · rw [if_neg same] at present
    exact (coherent.2 other value present).filled filled

/-- `GetCoins` answers from the map the stack stands for and only fills caches. -/
theorem getCoins_spec (coherent : Coherent view base caches) (txid : UInt256) :
    (getCoins view base txid caches).2 = readCoins view base caches txid ∧
      Filled view base caches (getCoins view base txid caches).1 ∧
      (getCoins view base txid caches).1.map CCoinsViewCache.hashBlock =
        caches.map CCoinsViewCache.hashBlock ∧
      Coherent view base (getCoins view base txid caches).1 ∧
      ((readCoins view base caches txid).isSome →
        HasEntry (getCoins view base txid caches).1 txid) := by
  induction caches with
  | nil => exact ⟨rfl, Filled.refl [], rfl, trivial, fun _ => trivial⟩
  | cons cache below ih =>
    obtain ⟨answer, filled, hashBlocks, filledCoherent, found⟩ := ih coherent.1
    cases present : cache.cacheCoins.lookup txid with
    | some entry =>
      simp only [getCoins, readCoins, present]
      exact ⟨trivial, Filled.refl _, trivial, coherent, fun _ => by simp [HasEntry, present]⟩
    | none =>
      generalize outcome : getCoins view base txid below = result at *
      obtain ⟨after, reply⟩ := result
      cases reply with
      | none =>
        simp only [getCoins, readCoins, present, outcome]
        refine ⟨answer, ⟨fun other => ?_, fun other inside => inside⟩, ?_, ⟨filledCoherent, ?_⟩, ?_⟩
        · simp only [readCoins, filled.coins]
        · simp [hashBlocks]
        · intro other entry inside
          exact (coherent.2 other entry inside).filled filled
        · intro missing
          rw [← answer] at missing
          cases missing
      | some coins =>
        simp only [getCoins, readCoins, present, outcome]
        have entryCoherent : EntryCoherent view base after txid (fetchedEntry coins) := by
          have below : coinsOf (readCoins view base after txid) = coins := by
            rw [filled.coins, ← answer]
            rfl
          refine ⟨coherent.1.clean answer.symm, fun _ => ?_, fun pruned => ?_, fun _ => ?_⟩
          · rw [below]
            exact same_refl coins
          · rw [below]
            exact pruned
          · exact found (by rw [← answer]; rfl)
        refine ⟨answer, ⟨fun other => ?_, fun other inside => ?_⟩, ?_, ?_, fun _ => ?_⟩
        · rw [show cache.cacheCoins.insert txid (fetchedEntry coins) =
            KeyedMap.put cache.cacheCoins txid (some (fetchedEntry coins)) from rfl,
            readCoins_put]
          by_cases same : other = txid
          · subst same
            simp only [↓reduceIte, readCoins, present, ← answer]
            rfl
          · simp [same, readCoins, filled.coins]
        · exact hasEntry_put inside
        · simp [hashBlocks]
        · have valid : ∀ value, some (fetchedEntry coins) = some value →
              EntryCoherent view base after txid value := by
            intro value same
            cases same
            exact entryCoherent
          exact coherent.put filled filledCoherent valid
        · simp [HasEntry]

theorem newEntry_eq (answer : Option CCoins) :
    newEntry answer = ⟨coinsOf answer, false, (coinsOf answer).isPruned⟩ := by
  cases answer <;> rfl

/-- A modification of an entry whose freshness is right leaves a coherent entry,
or none when there is nothing below either. -/
theorem modifiedEntry_spec {after : List CCoinsViewCache} (txid : UInt256)
    (entry : CCoinsCacheEntry) (modification : CCoins → CCoins)
    (nothingBelow : entry.fresh = true → (coinsOf (readCoins view base after txid)).isPruned = true)
    (alsoBelow : entry.fresh = false → HasEntry after txid) :
    (∀ value, modifiedEntry entry modification = some value →
      EntryCoherent view base after txid value) ∧
    (coinsOf (match modifiedEntry entry modification with
      | some value => some value.coins
      | none => readCoins view base after txid)).same
        (modification entry.coins).cleanup = true := by
  simp only [modifiedEntry]
  split
  · rename_i erased
    simp only [Bool.and_eq_true] at erased
    refine ⟨fun _ absurd => (by cases absurd), ?_⟩
    exact same_iff.mpr (.inl ⟨nothingBelow erased.1, erased.2⟩)
  · refine ⟨fun value same => ?_, same_refl _⟩
    cases same
    exact ⟨CCoins.cleanup_cleanup _, fun clean => (by cases clean), nothingBelow, alsoBelow⟩

/-- `ModifyCoins` changes the map as `CoinsMap.modifyCoins` does. -/
theorem modifyCoins_spec (coherent : Coherent view base (cache :: below)) (txid : UInt256)
    (modification : CCoins → CCoins) :
    Coherent view base (modifyCoins view base txid modification cache below) ∧
      (modifyCoins view base txid modification cache below).map CCoinsViewCache.hashBlock =
        (cache :: below).map CCoinsViewCache.hashBlock ∧
      ∀ other, (coinsOf (readCoins view base
          (modifyCoins view base txid modification cache below) other)).same
        (CoinsMap.modifyCoins (fun txid => coinsOf (readCoins view base (cache :: below) txid)) txid
          modification other) = true := by
  cases present : cache.cacheCoins.lookup txid with
  | some entry =>
    obtain ⟨-, -, nothingBelow, alsoBelow⟩ := coherent.2 txid entry present
    obtain ⟨valid, value⟩ := modifiedEntry_spec txid entry modification nothingBelow
      alsoBelow
    simp only [modifyCoins, present]
    refine ⟨coherent.put (Filled.refl below) coherent.1 valid, rfl, fun other => ?_⟩
    rw [readCoins_put]
    by_cases same : other = txid
    · subst same
      simp only [↓reduceIte, modifyCoins_self]
      rw [readCoins, present]
      exact value
    · rw [if_neg same, modifyCoins_of_ne _ same]
      exact same_refl _
  | none =>
    obtain ⟨answer, filled, hashBlocks, filledCoherent, found⟩ := getCoins_spec coherent.1 txid
    simp only [modifyCoins, present, answer, newEntry_eq]
    obtain ⟨valid, value⟩ := modifiedEntry_spec txid
      ⟨coinsOf (readCoins view base below txid), false,
        (coinsOf (readCoins view base below txid)).isPruned⟩ modification
      (fun pruned => by rw [filled.coins]; exact pruned)
      (fun unspent => found (by
        cases missing : readCoins view base below txid with
        | none =>
          rw [missing] at unspent
          cases unspent
        | some coins => rfl))
    refine ⟨coherent.put filled filledCoherent valid, ?_, fun other => ?_⟩
    · simp [hashBlocks]
    · rw [readCoins_put]
      by_cases same : other = txid
      · subst same
        simp only [↓reduceIte, modifyCoins_self]
        rw [readCoins, present]
        exact value
      · rw [if_neg same, modifyCoins_of_ne _ same]
        simp only [readCoins, filled.coins]
        exact same_refl _

theorem getBestBlock_cacheCoins (caches : List CCoinsViewCache) :
    (getBestBlock view base caches).1.map CCoinsViewCache.cacheCoins =
      caches.map CCoinsViewCache.cacheCoins := by
  induction caches with
  | nil => rfl
  | cons cache below ih =>
    simp only [getBestBlock]
    split
    · simp [ih]
    · rfl

theorem KnownBlocks.of_modifyHead {hashBlocks : List UInt256}
    (blocks : KnownBlocks view base hashBlocks (known.modifyHead fun _ => true)) :
    KnownBlocks view base hashBlocks known := by
  cases known with
  | nil => exact blocks
  | cons first rest =>
    cases hashBlocks with
    | nil => exact blocks
    | cons hashBlock below => exact ⟨fun _ => blocks.1 rfl, blocks.2⟩

/-- `GetBestBlock` remembers its answer and does not change later answers. -/
theorem getBestBlock_spec
    (blocks : KnownBlocks view base (caches.map CCoinsViewCache.hashBlock) known) :
    (getBestBlock view base caches).2 =
        readBestBlock view base (caches.map CCoinsViewCache.hashBlock) ∧
      readBestBlock view base
          ((getBestBlock view base caches).1.map CCoinsViewCache.hashBlock) =
        readBestBlock view base (caches.map CCoinsViewCache.hashBlock) ∧
      KnownBlocks view base ((getBestBlock view base caches).1.map CCoinsViewCache.hashBlock)
        (known.modifyHead fun _ => true) := by
  induction caches generalizing known with
  | nil =>
    cases known with
    | nil => exact ⟨rfl, rfl, trivial⟩
    | cons => exact blocks.elim
  | cons cache below ih =>
    cases known with
    | nil => exact blocks.elim
    | cons first rest =>
      obtain ⟨-, restBlocks⟩ := blocks
      obtain ⟨answer, unchanged, later⟩ := ih restBlocks
      by_cases unset : cache.hashBlock = 0
      · simp only [getBestBlock, unset, ↓reduceIte, map_cons, readBestBlock, answer,
          unchanged, ite_self, List.modifyHead_cons, true_and]
        refine ⟨fun _ => ?_, later.of_modifyHead⟩
        rw [unchanged]
        exact ne_or_eq _ _
      · simp only [getBestBlock, unset, ↓reduceIte, map_cons, readBestBlock,
          List.modifyHead_cons, true_and]
        exact ⟨fun _ => .inl unset, restBlocks⟩

theorem mergeEntry_spec (coherent : Coherent view base (cache :: parent :: below))
    {it : CCoinsCacheEntry} (present : cache.cacheCoins.lookup txid = some it) :
    ∃ merged, mergeEntry (parent.cacheCoins.lookup txid) it = some merged ∧
      (∀ entry, merged = some entry → EntryCoherent view base below txid entry) ∧
      (coinsOf (match merged with
        | some entry => some entry.coins
        | none => readCoins view base below txid)).same it.coins = true := by
  obtain ⟨clean, unchanged, nothingBelow, alsoBelow⟩ := coherent.2 txid it present
  have parentCoherent := coherent.1.2 txid
  cases inParent : parent.cacheCoins.lookup txid with
  | none =>
    rw [readCoins, inParent] at unchanged nothingBelow
    by_cases dirty : it.dirty = true
    · -- the entry is fresh, or else the cache below would have it
      have fresh : it.fresh = true := by
        by_contra old
        have missing := alsoBelow (Bool.eq_false_of_not_eq_true old)
        rw [HasEntry, inParent] at missing
        cases missing
      by_cases pruned : it.coins.isPruned = true
      · refine ⟨none, by simp only [mergeEntry, dirty, pruned, ↓reduceIte], ?_, ?_⟩
        · intro entry absurd
          cases absurd
        · exact same_iff.mpr (.inl ⟨nothingBelow fresh, pruned⟩)
      · refine ⟨some ⟨it.coins, true, true⟩, ?_, ?_, same_refl _⟩
        · simp [mergeEntry, dirty, pruned, fresh]
        · intro entry same
          cases same
          exact ⟨clean, fun absurd => (by cases absurd), fun _ => nothingBelow fresh,
            fun absurd => (by cases absurd)⟩
    · rw [Bool.not_eq_true] at dirty
      refine ⟨none, by simp only [mergeEntry, dirty, Bool.false_eq_true, ↓reduceIte], ?_, ?_⟩
      · intro entry absurd
        cases absurd
      · exact same_symm (unchanged dirty)
  | some us =>
    obtain ⟨-, -, usNothingBelow, usAlsoBelow⟩ := parentCoherent us inParent
    rw [readCoins, inParent] at unchanged
    by_cases dirty : it.dirty = true
    · by_cases erased : (us.fresh && it.coins.isPruned) = true
      · refine ⟨none, by simp only [mergeEntry, dirty, erased, ↓reduceIte], ?_, ?_⟩
        · intro entry absurd
          cases absurd
        · rw [Bool.and_eq_true] at erased
          exact same_iff.mpr (.inl ⟨usNothingBelow erased.1, erased.2⟩)
      · refine ⟨some ⟨it.coins, true, us.fresh⟩, ?_, ?_, same_refl _⟩
        · simp [mergeEntry, dirty, erased]
        · intro entry same
          cases same
          exact ⟨clean, fun absurd => (by cases absurd), usNothingBelow, usAlsoBelow⟩
    · rw [Bool.not_eq_true] at dirty
      refine ⟨some us, by simp only [mergeEntry, dirty, Bool.false_eq_true, ↓reduceIte], ?_, ?_⟩
      · intro entry same
        cases same
        exact parentCoherent us inParent
      · exact same_symm (unchanged dirty)

theorem batchWrite_spec (coherent : Coherent view base (cache :: parent :: below))
    (hashBlock : UInt256) :
    ∃ written, batchWrite parent cache.cacheCoins hashBlock = some written ∧
      written.hashBlock = hashBlock ∧ Coherent view base (written :: below) ∧
      ∀ txid, (coinsOf (readCoins view base (written :: below) txid)).same
        (coinsOf (readCoins view base (cache :: parent :: below) txid)) = true := by
  obtain ⟨merged, ok, lookups⟩ := KeyedMap.mergeAll_eq_some mergeEntry
    parent.cacheCoins cache.cacheCoins (by
      intro txid it present
      obtain ⟨result, defined, -⟩ := mergeEntry_spec coherent present
      rw [defined]
      rfl)
  refine ⟨⟨merged, hashBlock⟩, by rw [batchWrite, ok], rfl, ⟨coherent.1.1, ?_⟩, ?_⟩
  · intro txid entry present
    rw [lookups] at present
    cases changed : cache.cacheCoins.lookup txid with
    | none =>
      rw [changed] at present
      exact coherent.1.2 txid entry present
    | some it =>
      obtain ⟨result, defined, valid, -⟩ := mergeEntry_spec coherent changed
      simp only [changed, defined, Option.getD_some] at present
      exact valid entry present
  · intro txid
    rw [readCoins, lookups, readCoins]
    cases changed : cache.cacheCoins.lookup txid with
    | none =>
      exact same_refl _
    | some it =>
      obtain ⟨result, defined, -, same⟩ := mergeEntry_spec coherent changed
      simp only [defined, Option.getD_some]
      exact same

theorem batchWrite_base_spec (coherent : Coherent view base [cache]) (hashBlock txid : UInt256) :
    (coinsOf (readCoins view (view.batchWrite base cache.cacheCoins hashBlock) [] txid)).same
      (coinsOf (readCoins view base [cache] txid)) = true := by
  simp only [readCoins]
  cases present : cache.cacheCoins.lookup txid with
  | none =>
    apply view.getCoins_batchWrite_other
    intro entry absurd
    rw [present] at absurd
    cases absurd
  | some entry =>
    obtain ⟨clean, unchanged, -⟩ := coherent.2 txid entry present
    by_cases dirty : entry.dirty = true
    · exact view.getCoins_batchWrite_dirty base _ hashBlock txid entry present dirty clean
    · rw [Bool.not_eq_true] at dirty
      refine same_trans (view.getCoins_batchWrite_other base _ hashBlock txid ?_)
        (same_symm (unchanged dirty))
      intro other found
      rw [present] at found
      cases found
      exact ⟨dirty, unchanged dirty⟩

variable (view) in
/-- The stack stands for the map. -/
structure Refines (stack : CacheStack β) (flat : FlatView) : Prop where
  coherent : Coherent view stack.base stack.caches
  coins : ∀ txid, (coinsOf (readCoins view stack.base stack.caches txid)).same
    (flat.coins txid) = true
  bestBlock : readBestBlock view stack.base (stack.caches.map CCoinsViewCache.hashBlock) =
    flat.bestBlock
  known : KnownBlocks view stack.base (stack.caches.map CCoinsViewCache.hashBlock) flat.known

/-- The modification gives equal results on equal coins: it does not look at the
metadata of coins without unspent outputs. -/
def Op.Respects : Op → Prop
  | .modifyCoins _ modification => ∀ first second : CCoins, first.same second = true →
      (modification first).same (modification second) = true
  | _ => True

section Steps

variable {stack : CacheStack β} {flat : FlatView}

theorem Refines.getCoins (refines : Refines view stack flat) (txid : UInt256) :
    Refines view { stack with caches := (getCoins view stack.base txid stack.caches).1 } flat := by
  obtain ⟨-, filled, hashBlocks, coherent, -⟩ := getCoins_spec refines.coherent txid
  refine ⟨coherent, fun other => ?_, ?_, ?_⟩
  · rw [filled.coins]
    exact refines.coins other
  · rw [hashBlocks]
    exact refines.bestBlock
  · rw [hashBlocks]
    exact refines.known

variable {cache : CCoinsViewCache} {below : List CCoinsViewCache} {base : β} {coins : CoinsMap}
    {bestBlock : UInt256} {known : List Bool}

theorem Refines.modifyCoins (refines : Refines view ⟨cache :: below, base⟩ flat) (txid : UInt256)
    (modification : CCoins → CCoins) (respects : ∀ first second : CCoins, first.same second = true →
      (modification first).same (modification second) = true) :
    Refines view ⟨modifyCoins view base txid modification cache below, base⟩
      { flat with coins := flat.coins.modifyCoins txid modification } := by
  obtain ⟨coherent, hashBlocks, coins⟩ := modifyCoins_spec refines.coherent txid modification
  refine ⟨coherent, fun other => same_trans (coins other) ?_, ?_, ?_⟩
  · dsimp only
    by_cases same : other = txid
    · subst same
      rw [modifyCoins_self, modifyCoins_self]
      exact CCoins.same_cleanup (respects _ _ (refines.coins other))
    · rw [modifyCoins_of_ne _ same, modifyCoins_of_ne _ same]
      exact refines.coins other
  · rw [hashBlocks]
    exact refines.bestBlock
  · rw [hashBlocks]
    exact refines.known

theorem Refines.setBestBlock {first : Bool}
    (refines : Refines view ⟨cache :: below, base⟩ ⟨coins, bestBlock, first :: known⟩)
    {hashBlock : UInt256} (nonzero : hashBlock ≠ 0) :
    Refines view ⟨{ cache with hashBlock := hashBlock } :: below, base⟩
      ⟨coins, hashBlock, true :: known⟩ := by
  refine ⟨refines.coherent.of_cacheCoins rfl, fun txid => ?_, ?_, ?_, refines.known.2⟩
  · exact refines.coins txid
  · simp only [map_cons, readBestBlock, nonzero, ↓reduceIte]
  · exact fun _ => .inl nonzero

theorem Refines.getBestBlock (refines : Refines view stack flat) :
    Refines view { stack with caches := (getBestBlock view stack.base stack.caches).1 }
      { flat with known := flat.known.modifyHead fun _ => true } := by
  have sameCoins : (CacheStack.getBestBlock view stack.base stack.caches).1.map
      CCoinsViewCache.cacheCoins = stack.caches.map CCoinsViewCache.cacheCoins :=
    getBestBlock_cacheCoins stack.caches
  obtain ⟨-, unchanged, known⟩ := getBestBlock_spec refines.known
  refine ⟨refines.coherent.of_cacheCoins sameCoins, fun txid => ?_, ?_, known⟩
  · rw [(Filled.of_cacheCoins sameCoins).coins]
    exact refines.coins txid
  · rw [unchanged]
    exact refines.bestBlock

theorem Refines.push (refines : Refines view stack flat) :
    Refines view { stack with caches := {} :: stack.caches }
      { flat with known := false :: flat.known } := by
  refine ⟨⟨refines.coherent, ?_⟩, fun txid => ?_, ?_, ?_⟩
  · intro txid entry absurd
    cases absurd
  · exact refines.coins txid
  · exact refines.bestBlock
  · exact ⟨fun absurd => (by cases absurd), refines.known⟩

theorem Refines.flush_base
    (refines : Refines view ⟨[cache], base⟩ ⟨coins, bestBlock, true :: known⟩) :
    Refines view ⟨[], view.batchWrite base cache.cacheCoins cache.hashBlock⟩
      ⟨coins, bestBlock, known⟩ := by
  refine ⟨trivial, fun txid => ?_, ?_, ?_⟩
  · exact same_trans (batchWrite_base_spec refines.coherent _ txid) (refines.coins txid)
  · have best := refines.bestBlock
    simp only [map_cons, map_nil, readBestBlock] at best ⊢
    rw [← best]
    split
    · rename_i zero
      have none : view.getBestBlock base = 0 :=
        (refines.known.1 rfl).resolve_left (not_not.mpr zero)
      rcases view.getBestBlock_batchWrite base cache.cacheCoins cache.hashBlock with
        written | ⟨-, kept⟩
      · rw [written, zero, none]
      · exact kept
    · rename_i nonzero
      rcases view.getBestBlock_batchWrite base cache.cacheCoins cache.hashBlock with
        written | ⟨zero, -⟩
      · exact written
      · exact absurd zero nonzero
  · cases known with
    | nil => trivial
    | cons => exact refines.known.2.elim

theorem Refines.flush_cache {cache parent : CCoinsViewCache} {first : Bool}
    (refines : Refines view ⟨cache :: parent :: below, base⟩
      ⟨coins, bestBlock, true :: first :: known⟩) :
    ∃ written, batchWrite parent cache.cacheCoins cache.hashBlock = some written ∧
      Refines view ⟨written :: below, base⟩ ⟨coins, bestBlock, true :: known⟩ := by
  obtain ⟨written, ok, sameBlock, coherent, same⟩ :=
    batchWrite_spec refines.coherent cache.hashBlock
  -- a zero hash is handed down only when the caches below have none either
  have nothing : cache.hashBlock = 0 → parent.hashBlock = 0 ∧
      readBestBlock view base (below.map CCoinsViewCache.hashBlock) = 0 := by
    intro zero
    have none := (refines.known.1 rfl).resolve_left (not_not.mpr zero)
    simp only [map_cons, readBestBlock] at none
    split at none
    · rename_i unset
      exact ⟨unset, none⟩
    · rename_i set
      exact absurd none set
  refine ⟨written, ok, coherent, fun txid => ?_, ?_, ?_, refines.known.2.2⟩
  · exact same_trans (same txid) (refines.coins txid)
  · have best := refines.bestBlock
    simp only [map_cons, readBestBlock, sameBlock] at best ⊢
    by_cases zero : cache.hashBlock = 0
    · simpa only [zero, ↓reduceIte, (nothing zero).1] using best
    · simpa only [zero, ↓reduceIte] using best
  · intro _
    rw [sameBlock]
    by_cases zero : cache.hashBlock = 0
    · exact .inr (nothing zero).2
    · exact .inl zero

end Steps

/-- **One operation.** What the map does, the stack does, staying its image. -/
theorem Refines.step {flat next : FlatView} {operation : Op} (respects : operation.Respects)
    (refines : Refines view stack flat) (permitted : FlatView.step operation flat = some next) :
    ∃ after, CacheStack.step view operation stack = some after ∧ Refines view after next := by
  obtain ⟨caches, base⟩ := stack
  obtain ⟨coins, bestBlock, known⟩ := flat
  have shape : ∀ first rest, known = first :: rest → ∃ cache below, caches = cache :: below := by
    intro first rest nonempty
    cases caches with
    | nil =>
      rw [nonempty] at refines
      exact refines.known.elim
    | cons cache below => exact ⟨cache, below, rfl⟩
  cases operation with
  | push =>
    cases permitted
    exact ⟨_, rfl, refines.push⟩
  | accessCoins txid | haveCoins txid | getCoins txid =>
    cases known with
    | nil => cases permitted
    | cons first rest =>
      cases permitted
      obtain ⟨cache, below, rfl⟩ := shape first rest rfl
      exact ⟨_, rfl, refines.getCoins txid⟩
  | modifyCoins txid modification =>
    cases known with
    | nil => cases permitted
    | cons first rest =>
      cases permitted
      obtain ⟨cache, below, rfl⟩ := shape first rest rfl
      exact ⟨_, rfl, refines.modifyCoins txid modification respects⟩
  | setBestBlock hashBlock =>
    cases known with
    | nil => cases permitted
    | cons first rest =>
      simp only [FlatView.step.eq_def] at permitted
      split at permitted
      · cases permitted
      · rename_i nonzero
        cases permitted
        obtain ⟨cache, below, rfl⟩ := shape first rest rfl
        exact ⟨_, rfl, refines.setBestBlock nonzero⟩
  | getBestBlock =>
    cases known with
    | nil => cases permitted
    | cons first rest =>
      cases permitted
      obtain ⟨cache, below, rfl⟩ := shape first rest rfl
      exact ⟨_, rfl, refines.getBestBlock⟩
  | flush =>
    match known, permitted with
    | [true], permitted =>
      cases permitted
      obtain ⟨cache, below, rfl⟩ := shape true [] rfl
      cases below with
      | nil => exact ⟨_, rfl, refines.flush_base⟩
      | cons => exact refines.known.2.elim
    | true :: first :: rest, permitted =>
      cases permitted
      obtain ⟨cache, below, rfl⟩ := shape true (first :: rest) rfl
      cases below with
      | nil => exact refines.known.2.elim
      | cons parent below =>
        obtain ⟨written, ok, after⟩ := refines.flush_cache
        refine ⟨⟨written :: below, base⟩, ?_, after⟩
        simp only [CacheStack.step, flush, ok]

variable (view base) in
def flatOf : FlatView := ⟨fun txid => coinsOf (view.getCoins base txid), view.getBestBlock base, []⟩

theorem flatOf_refines (view : CCoinsBase β) (base : β) :
    Refines view ⟨[], base⟩ (flatOf view base) :=
  ⟨trivial, fun _ => same_refl _, rfl, trivial⟩

/-- What the top of the stack shows is the map: the coins, whether there are any,
and the best block. -/
def Shows (view : CCoinsBase β) (stack : CacheStack β) (flat : FlatView) : Prop :=
  (∀ txid, (stack.seenCoins view txid).same (flat.coins txid) = true ∧
    haveCoins view stack.base txid stack.caches = !(flat.coins txid).isPruned) ∧
  stack.seenBestBlock view = flat.bestBlock

theorem Refines.shows {flat : FlatView} (refines : Refines view stack flat) :
    Shows view stack flat := by
  refine ⟨fun txid => ?_, ?_⟩
  · obtain ⟨answer, -⟩ := getCoins_spec refines.coherent txid
    have same := refines.coins txid
    refine ⟨?_, ?_⟩
    · rw [seenCoins, answer]
      exact same
    · rw [haveCoins, answer, ← CCoins.isPruned_eq_of_same same]
      cases found : readCoins view stack.base stack.caches txid with
      | none => rfl
      | some coins =>
        rw [coinsOf, Option.getD_some,
          CCoins.isPruned_eq_isEmpty_of_clean (refines.coherent.clean found)]
  · rw [seenBestBlock, (getBestBlock_spec refines.known).1]
    exact refines.bestBlock

/-- **A stack of caches is a map.** Over every base view, every sequence of
operations the map permits runs through on the stack, without failing the
assertion of `BatchWrite`, and the top of the stack then shows the map. -/
theorem run_refines {β : Type} (view : CCoinsBase β) (base : β) (operations : List Op)
    (respects : ∀ operation ∈ operations, operation.Respects) (final : FlatView)
    (permitted : run FlatView.step operations (flatOf view base) = some final) :
    ∃ stack, run (step view) operations ⟨[], base⟩ = some stack ∧ Shows view stack final := by
  obtain ⟨stack, runs, refines⟩ := run_simulates (Refines view)
    (fun operation mem stack flat next refines permitted =>
      Refines.step (respects operation mem) refines permitted)
    permitted (flatOf_refines view base)
  exact ⟨stack, runs, refines.shows⟩

def sampleOperations : List Op :=
  [.push, .modifyCoins 1 fun _ => { fCoinBase := true, vout := [.of COIN [0x51]], nHeight := 5 },
    .setBestBlock 9, .flush, .push, .modifyCoins 1 CCoins.clear, .getBestBlock, .flush]

theorem run_refines_sampleOperations :
    ∃ stack, run (step CCoinsViewDB.base) sampleOperations ⟨[], {}⟩ = some stack ∧
      Shows CCoinsViewDB.base stack
        ⟨CoinsMap.modifyCoins (CoinsMap.modifyCoins (fun _ => {}) 1 fun _ =>
          { fCoinBase := true, vout := [.of COIN [0x51]], nHeight := 5 }) 1 CCoins.clear, 9,
        []⟩ := by
  refine run_refines CCoinsViewDB.base {} sampleOperations ?_ _ rfl
  simp only [sampleOperations, List.forall_mem_cons, Op.Respects, CCoins.clear]
  simp

/-- The map changed by the bare modifications, any hash being a best block. -/
def plainStep : Op → FlatView → Option FlatView
  | .modifyCoins txid modification, ⟨coins, bestBlock, first :: known⟩ =>
    some ⟨Function.update coins txid (modification (coins txid)), bestBlock, first :: known⟩
  | .setBestBlock hashBlock, ⟨coins, _, _ :: known⟩ => some ⟨coins, hashBlock, true :: known⟩
  | operation, flat => FlatView.step operation flat

/-- The stack does not show the plain map: when the best block is set to zero, when
a modification reads the metadata of coins that are gone, and when it leaves null
outputs at the end. -/
theorem not_shows_plainStep :
    (∃ stack flat,
      run (step CCoinsViewDB.base) [.push, .setBestBlock 0] ⟨[], ⟨∅, some 5⟩⟩ = some stack ∧
      run plainStep [.push, .setBestBlock 0] (flatOf CCoinsViewDB.base ⟨∅, some 5⟩) = some flat ∧
      stack.seenBestBlock CCoinsViewDB.base ≠ flat.bestBlock) ∧
    (let operations := [Op.push, .modifyCoins 1 fun coins => { coins with nHeight := 5 },
        .modifyCoins 1 fun coins => { coins with vout := [.of COIN []] }]
      ∃ stack flat, run (step CCoinsViewDB.base) operations ⟨[], {}⟩ = some stack ∧
        run plainStep operations (flatOf CCoinsViewDB.base {}) = some flat ∧
        (stack.seenCoins CCoinsViewDB.base 1).same (flat.coins 1) = false) ∧
    let operations := [Op.push, .modifyCoins 1 fun coins =>
      { coins with vout := [.of COIN [], CTxOut.null] }]
    ∃ stack flat, run (step CCoinsViewDB.base) operations ⟨[], {}⟩ = some stack ∧
      run plainStep operations (flatOf CCoinsViewDB.base {}) = some flat ∧
      (stack.seenCoins CCoinsViewDB.base 1).same (flat.coins 1) = false := by
  refine ⟨⟨_, _, rfl, rfl, ?_⟩, ⟨_, _, rfl, rfl, ?_⟩, _, _, rfl, rfl, ?_⟩
  · decide
  · decide
  · decide

end CacheStack

end DogeCash
