import Mathlib.Data.List.AList
import DogeCash.Foundation.Run
import DogeCash.Foundation.SortedMultimap

/-! # Limited maps

`limitedmap` is a map that should keep the entries with the highest values, up to a number of them.
A multimap leads from the values back to the entries. An iterator of the map is the key of its
element here. An operation returns `none` where an assertion fails or an element is read or erased
that is not there.

Whether the map is full is tested between the two insertions, when the new entry is in the map
already. So an entry is evicted as soon as one place is left, the test misses a map that is full,
and a map for one entry has none to evict.
-/

namespace DogeCash

theorem KeyedMap.perm_cons_erase {K V : Type*} [DecidableEq K] {map : AList fun _ : K => V} {k : K}
    {value : V}
    (held : map.lookup k = some value) :
    map.entries.Perm (⟨k, value⟩ :: (map.erase k).entries) := by
  have inside : (⟨k, value⟩ : Sigma fun _ : K => V) ∈ map.entries := List.of_mem_dlookup held
  obtain ⟨other, front, back, -, shape, erased⟩ :=
    List.exists_of_kerase (List.mem_keys_of_mem inside)
  have same : other = value := by
    have there : (⟨k, other⟩ : Sigma fun _ : K => V) ∈ map.entries := by simp [shape]
    exact map.nodupKeys.eq_of_mk_mem there inside
  have others : (map.erase k).entries = front ++ back := erased
  rw [others, shape, same]
  exact List.perm_middle

structure LimitedMap (K V : Type*) [DecidableEq K] [LinearOrder V] where
  map : AList fun _ : K => V
  rmap : SortedMultimap V K
  nMaxSize : ℕ

namespace LimitedMap

variable {K V : Type*} [DecidableEq K] [LinearOrder V]

/-- The constructor of `limitedmap`. -/
def new (nMaxSizeIn : ℕ) : LimitedMap K V := ⟨∅, .empty, nMaxSizeIn⟩

def size (cache : LimitedMap K V) : ℕ := cache.map.entries.length

/-- `map.erase(rmap.begin()->second); rmap.erase(rmap.begin());` -/
def evict (cache : LimitedMap K V) : Option (LimitedMap K V) :=
  match cache.rmap.entries with
  | [] => none
  | (_, target) :: _ =>
    if target ∈ cache.map then
      some { cache with map := cache.map.erase target, rmap := cache.rmap.eraseFirst }
    else none

def insert (cache : LimitedMap K V) (x : K × V) : Option (LimitedMap K V) :=
  if x.1 ∈ cache.map then some cache
  else do
    let cache := { cache with map := cache.map.insert x.1 x.2 }
    let cache ← if cache.nMaxSize ≠ 0 ∧ cache.size = cache.nMaxSize then cache.evict else some cache
    return { cache with rmap := cache.rmap.insert x.2 x.1 }

def erase (cache : LimitedMap K V) (k : K) : Option (LimitedMap K V) :=
  match cache.map.lookup k with
  | none => some cache
  | some value =>
    if (value, k) ∈ cache.rmap.entries then
      some { cache with map := cache.map.erase k, rmap := cache.rmap.erase value k }
    else none

/-- `limitedmap::update` of the element with a key. -/
def update (cache : LimitedMap K V) (k : K) (v : V) : Option (LimitedMap K V) :=
  match cache.map.lookup k with
  | none => some cache
  | some value =>
    if (value, k) ∈ cache.rmap.entries then
      some { cache with map := cache.map.insert k v, rmap := (cache.rmap.erase value k).insert v k }
    else none

theorem evict_eq_some {cache after : LimitedMap K V} (evicts : cache.evict = some after) :
    ∃ value target rest, cache.rmap.entries = (value, target) :: rest ∧ target ∈ cache.map ∧
      after = { cache with map := cache.map.erase target, rmap := cache.rmap.eraseFirst } := by
  rw [evict] at evicts
  split at evicts
  case h_1 => cases evicts
  case h_2 value target rest shape =>
    split_ifs at evicts with inside
    exact ⟨value, target, rest, shape, inside, (Option.some.inj evicts).symm⟩

theorem size_erase {cache : LimitedMap K V} {k : K} (inside : k ∈ cache.map) :
    (cache.map.erase k).entries.length + 1 = cache.size := by
  obtain ⟨value, held⟩ := Option.isSome_iff_exists.mp (AList.lookup_isSome.mpr inside)
  exact (KeyedMap.perm_cons_erase held).length_eq.symm

theorem size_of_evict {cache after : LimitedMap K V} (evicts : cache.evict = some after) :
    after.size + 1 = cache.size := by
  obtain ⟨-, target, -, -, inside, rfl⟩ := evict_eq_some evicts
  exact size_erase inside

/-- `while (map.size() > s)` -/
def shrink (s : ℕ) (cache : LimitedMap K V) : Option (LimitedMap K V) :=
  if s < cache.size then
    match _evicts : cache.evict with
    | none => none
    | some next => shrink s next
  else some cache
termination_by cache.size
decreasing_by
  have := size_of_evict _evicts
  omega

/-- `limitedmap::max_size` with an argument. -/
def maxSize (cache : LimitedMap K V) (s : ℕ) : Option (LimitedMap K V) := do
  let cache ← if s ≠ 0 then cache.shrink s else some cache
  return { cache with nMaxSize := s }

inductive Operation (K V : Type*) where
  | insert (x : K × V)
  | erase (k : K)
  | update (k : K) (v : V)
  | maxSize (s : ℕ)

def perform : Operation K V → LimitedMap K V → Option (LimitedMap K V)
  | .insert x, cache => cache.insert x
  | .erase k, cache => cache.erase k
  | .update k v, cache => cache.update k v
  | .maxSize s, cache => cache.maxSize s

/-! ## The two containers -/

def inverse (map : AList fun _ : K => V) : List (V × K) :=
  map.entries.map fun entry => (entry.2, entry.1)

def Inverse (cache : LimitedMap K V) : Prop := cache.rmap.entries.Perm (inverse cache.map)

variable {cache : LimitedMap K V} {k : K} {value : V}

theorem inverse_perm_erase (held : cache.map.lookup k = some value) :
    (inverse cache.map).Perm ((value, k) :: inverse (cache.map.erase k)) :=
  (KeyedMap.perm_cons_erase held).map _

section

variable (holds : cache.Inverse)
include holds

theorem Inverse.mem_iff : (value, k) ∈ cache.rmap.entries ↔ cache.map.lookup k = some value := by
  rw [List.Perm.mem_iff holds, inverse, List.mem_map]
  constructor
  · rintro ⟨⟨key, other⟩, mem, same⟩
    obtain ⟨rfl, rfl⟩ := Prod.mk.inj same
    exact List.mem_dlookup cache.map.nodupKeys mem
  · intro held
    exact ⟨⟨k, value⟩, List.of_mem_dlookup held, rfl⟩

theorem Inverse.length_eq : cache.rmap.entries.length = cache.size :=
  (List.Perm.length_eq holds).trans (List.length_map _)

theorem Inverse.erase (held : cache.map.lookup k = some value) :
    (cache.rmap.entries.erase (value, k)).Perm (inverse (cache.map.erase k)) := by
  have parts := (holds.trans (inverse_perm_erase held)).erase (value, k)
  rwa [List.erase_cons_head] at parts

theorem Inverse.evict (nonempty : 0 < cache.size) :
    ∃ after, cache.evict = some after ∧ after.Inverse ∧ after.nMaxSize = cache.nMaxSize := by
  cases shape : cache.rmap.entries with
  | nil =>
    have length := holds.length_eq
    rw [shape, List.length_nil] at length
    omega
  | cons first rest =>
    obtain ⟨value, target⟩ := first
    have held : cache.map.lookup target = some value :=
      holds.mem_iff.mp (by rw [shape]; exact List.mem_cons_self)
    have inside : target ∈ cache.map := AList.lookup_isSome.mp (by rw [held]; rfl)
    have evicts : cache.evict = some { cache with
        map := cache.map.erase target, rmap := cache.rmap.eraseFirst } := by
      rw [LimitedMap.evict, shape]
      exact if_pos inside
    refine ⟨_, evicts, ?_, rfl⟩
    have others := holds.erase held
    rw [shape, List.erase_cons_head] at others
    have tail : cache.rmap.eraseFirst.entries = rest := congrArg List.tail shape
    exact (List.Perm.of_eq tail).trans others

end

theorem Inverse.shrink (s : ℕ) (holds : cache.Inverse) :
    ∃ after, cache.shrink s = some after ∧ after.Inverse ∧ after.size ≤ s := by
  fun_induction LimitedMap.shrink s cache with
  | case1 cache more failed =>
    obtain ⟨after, evicts, -⟩ := holds.evict (by omega)
    exact absurd (failed.symm.trans evicts) (by simp)
  | case2 cache more next evicts ih =>
    obtain ⟨after, same, kept, -⟩ := holds.evict (by omega)
    obtain rfl := Option.some.inj (evicts.symm.trans same)
    exact ih kept
  | case3 cache enough => exact ⟨cache, rfl, holds, not_lt.mp enough⟩

/-! ## What an operation should keep -/

/-- What should hold around an operation. The limit is kept, the multimap holds the inverse pairs,
and if the insertion of a new key evicts an element, then the map was full and no value was less. -/
structure Kept (before : LimitedMap K V) (operation : Operation K V) (after : LimitedMap K V) :
    Prop where
  bounded : after.nMaxSize ≠ 0 → after.size ≤ after.nMaxSize
  inverse : after.Inverse
  evicts : ∀ x, operation = .insert x → x.1 ∉ before.map →
    ∀ other value, before.map.lookup other = some value → after.map.lookup other = none →
      before.nMaxSize ≠ 0 ∧ before.nMaxSize ≤ before.size ∧
        ∀ k held, before.map.lookup k = some held → value ≤ held

def HasRoom (cache : LimitedMap K V) : Operation K V → Prop
  | .insert x => x.1 ∉ cache.map → cache.nMaxSize = 0 ∨ cache.size + 1 < cache.nMaxSize
  | _ => True

/-- A state with the limit kept and with inverse containers. -/
structure Sound (cache : LimitedMap K V) : Prop where
  bounded : cache.nMaxSize ≠ 0 → cache.size ≤ cache.nMaxSize
  inverse : cache.Inverse

theorem Sound.kept (before : LimitedMap K V) {operation : Operation K V} {after : LimitedMap K V}
    (sound : after.Sound) (other : ∀ x, operation ≠ .insert x) : Kept before operation after :=
  ⟨sound.bounded, sound.inverse, fun x same => absurd same (other x)⟩

theorem Sound.erase (sound : cache.Sound) (k : K) :
    ∃ after, cache.erase k = some after ∧ after.Sound := by
  rw [LimitedMap.erase]
  cases held : cache.map.lookup k with
  | none => exact ⟨cache, rfl, sound⟩
  | some value =>
    refine ⟨_, if_pos (sound.inverse.mem_iff.mpr held), fun limited => ?_, sound.inverse.erase held⟩
    have fewer : (cache.map.erase k).entries.length + 1 = cache.size :=
      size_erase (AList.lookup_isSome.mp (by rw [held]; rfl))
    have bounded := sound.bounded limited
    show (cache.map.erase k).entries.length ≤ cache.nMaxSize
    omega

theorem Sound.update (sound : cache.Sound) (k : K) (v : V) :
    ∃ after, cache.update k v = some after ∧ after.Sound := by
  rw [LimitedMap.update]
  cases held : cache.map.lookup k with
  | none => exact ⟨cache, rfl, sound⟩
  | some value =>
    refine ⟨_, if_pos (sound.inverse.mem_iff.mpr held), fun limited => ?_, ?_⟩
    · have same : (cache.map.erase k).entries.length + 1 = cache.size :=
        size_erase (AList.lookup_isSome.mp (by rw [held]; rfl))
      have count : (cache.map.insert k v).entries.length = cache.size := by
        exact same
      exact count.trans_le (sound.bounded limited)
    · have parts := (cache.rmap.erase value k).insert_perm v k
      refine parts.trans ?_
      exact (sound.inverse.erase held).cons _

theorem Sound.maxSize (sound : cache.Sound) (s : ℕ) :
    ∃ after, cache.maxSize s = some after ∧ after.Sound := by
  rw [LimitedMap.maxSize]
  by_cases unlimited : s = 0
  · rw [if_neg (not_not.mpr unlimited)]
    exact ⟨_, rfl, fun limited => absurd unlimited limited, sound.inverse⟩
  · obtain ⟨after, shrunk, kept, few⟩ := sound.inverse.shrink s
    rw [if_pos unlimited, shrunk]
    exact ⟨_, rfl, fun _ => few, kept⟩

section insertion

variable {x : K × V}

def withNew (cache : LimitedMap K V) (x : K × V) : LimitedMap K V :=
  { cache with map := cache.map.insert x.1 x.2 }

theorem size_withNew (fresh : x.1 ∉ cache.map) : (cache.withNew x).size = cache.size + 1 :=
  congrArg List.length (AList.entries_insert_of_notMem fresh)

theorem insert_new (fresh : x.1 ∉ cache.map) :
    cache.insert x =
      (if cache.nMaxSize ≠ 0 ∧ cache.size + 1 = cache.nMaxSize then (cache.withNew x).evict
        else some (cache.withNew x)).bind fun cache =>
          some { cache with rmap := cache.rmap.insert x.2 x.1 } := by
  rw [LimitedMap.insert, if_neg fresh, ← size_withNew fresh]
  by_cases full : cache.nMaxSize ≠ 0 ∧ (cache.withNew x).size = cache.nMaxSize
  · rw [if_pos full]
    exact if_pos full
  · rw [if_neg full]
    exact if_neg full

theorem exists_evicted (sound : cache.Sound) (fresh : x.1 ∉ cache.map)
    (full : cache.nMaxSize ≠ 0 ∧ cache.size + 1 = cache.nMaxSize) {after : LimitedMap K V}
    (inserts : cache.insert x = some after) :
    ∃ other value, cache.map.lookup other = some value ∧ after.map.lookup other = none := by
  rw [insert_new fresh, if_pos full] at inserts
  obtain ⟨evicted, evicts, inserted⟩ := Option.bind_eq_some_iff.mp inserts
  obtain rfl := Option.some.inj inserted
  obtain ⟨value, target, rest, shape, -, rfl⟩ := evict_eq_some evicts
  have first : cache.rmap.entries = (value, target) :: rest := shape
  exact ⟨target, value, sound.inverse.mem_iff.mp (by rw [first]; exact List.mem_cons_self),
    AList.lookup_erase _ _⟩

theorem Sound.insert (sound : cache.Sound) (x : K × V) :
    (∃ after, cache.insert x = some after ∧ Kept cache (.insert x) after) ↔
      HasRoom cache (.insert x) := by
  by_cases fresh : x.1 ∉ cache.map
  · by_cases full : cache.nMaxSize ≠ 0 ∧ cache.size + 1 = cache.nMaxSize
    · refine iff_of_false ?_ fun room => ?_
      · rintro ⟨after, inserts, kept⟩
        obtain ⟨other, value, held, gone⟩ := exists_evicted sound fresh full inserts
        obtain ⟨-, most, -⟩ := kept.evicts x rfl fresh other value held gone
        omega
      · have := room fresh
        omega
    · have count := size_withNew fresh
      have inserts := insert_new fresh
      rw [if_neg full, Option.bind_some] at inserts
      constructor
      · rintro ⟨after, same, kept⟩ -
        obtain rfl := Option.some.inj (inserts.symm.trans same)
        have bounded : cache.nMaxSize ≠ 0 → (cache.withNew x).size ≤ cache.nMaxSize := kept.bounded
        omega
      · intro room
        have space := room fresh
        refine ⟨_, inserts, fun limited => ?_, ?_, ?_⟩
        · have limit : cache.nMaxSize ≠ 0 := limited
          have enough : cache.size + 1 ≤ cache.nMaxSize := by omega
          exact count.trans_le enough
        · refine (cache.rmap.insert_perm x.2 x.1).trans ?_
          have pairs : LimitedMap.inverse (cache.map.insert x.1 x.2) =
              (x.2, x.1) :: LimitedMap.inverse cache.map :=
            congrArg _ (AList.entries_insert_of_notMem fresh)
          exact (sound.inverse.cons _).trans (List.Perm.of_eq pairs.symm)
        · rintro y same - other value held gone
          have elsewhere : other ≠ x.1 := fun same =>
            fresh (same ▸ AList.lookup_isSome.mp (by rw [held]; rfl))
          have kept : (cache.map.insert x.1 x.2).lookup other = some value :=
            (AList.lookup_insert_ne elsewhere).trans held
          exact absurd (kept.symm.trans gone) (by simp)
  · have known := not_not.mp fresh
    refine iff_of_true ⟨cache, if_pos known, sound.bounded, sound.inverse, ?_⟩
      fun new => absurd known new
    intro y same new
    obtain rfl := Operation.insert.inj same
    exact absurd new fresh

end insertion

theorem Sound.perform (sound : cache.Sound) (operation : Operation K V) :
    (∃ after, perform operation cache = some after ∧ Kept cache operation after) ↔
      HasRoom cache operation := by
  cases operation with
  | insert x => exact sound.insert x
  | erase k =>
    obtain ⟨after, erased, kept⟩ := sound.erase k
    exact iff_of_true ⟨after, erased, kept.kept cache (by simp)⟩ trivial
  | update k v =>
    obtain ⟨after, updated, kept⟩ := sound.update k v
    exact iff_of_true ⟨after, updated, kept.kept cache (by simp)⟩ trivial
  | maxSize s =>
    obtain ⟨after, limited, kept⟩ := sound.maxSize s
    exact iff_of_true ⟨after, limited, kept.kept cache (by simp)⟩ trivial

/-- **When a limited map keeps its bound.** Around every operation of a run the map holds at most
`nMaxSize` elements, the multimap holds exactly the inverse pairs, and a new key evicts an element
only from a full map, and then one with the least value, exactly if every new key is inserted while
there is no limit or at least two places are left. -/
theorem limitedMap_kept_iff (nMaxSize : ℕ) (operations : List (Operation K V)) :
    (∀ earlier operation later, operations = earlier ++ operation :: later →
      ∃ before after, run LimitedMap.perform earlier (new nMaxSize) = some before ∧
        LimitedMap.perform operation before = some after ∧ Kept before operation after) ↔
      RunMeets LimitedMap.perform HasRoom operations (new nMaxSize) := by
  have start : (new nMaxSize : LimitedMap K V).Sound := ⟨fun _ => Nat.zero_le _, List.Perm.refl _⟩
  exact steps_iff_runMeets Sound (fun operation before sound => sound.perform operation)
    (fun _ _ _ kept => ⟨kept.bounded, kept.inverse⟩) start

/-- A map for one entry reads the first element of an empty multimap, and a map for two entries
evicts the first one for the second. -/
theorem limitedMap_evicts_early :
    (new 1 : LimitedMap ℕ ℕ).insert (0, 5) = none ∧
      ∃ before after, run LimitedMap.perform [.insert (0, 5)] (new 2) = some before ∧
        LimitedMap.perform (.insert (1, 6)) before = some after ∧ before.size = 1 ∧
          before.map.lookup 0 = some 5 ∧ after.map.lookup 0 = none :=
  ⟨rfl, _, _, rfl, rfl, rfl, rfl, rfl⟩

end LimitedMap

end DogeCash
