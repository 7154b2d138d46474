import Mathlib.Data.Fintype.Prod
import DogeCash.Foundation.Occurrences
import DogeCash.Foundation.Writes
import DogeCash.Network.AddrMan

/-! # The tables of the address manager

What the two tables say about the entries, for any function from ids to entries. An entry can
be added or removed while no place has it; it enters and leaves places of the new table one at
a time, and its place of the tried table.
-/

namespace DogeCash

open Function (update_of_ne update_self)

/-- What holds of an entry by itself. -/
structure CAddrInfo.Sound (info : CAddrInfo) : Prop where
  lastTry : 0 ≤ info.nLastTry
  lastSuccess : 0 ≤ info.nLastSuccess
  succeeded : info.fInTried = true → info.nLastSuccess ≠ 0
  unreferenced : info.fInTried = true → info.nRefCount = 0
  atMost : info.nRefCount ≤ newBucketsPerAddress

/-- The tables agree with the entries: a tried entry has exactly its hashed place in the tried
table, and a new entry has as many places as it has references, each where its bucket hashes
it. -/
structure AddrTables (env : AddrEnv) (nKey : UInt256) (entries : Int → Option CAddrInfo)
    (vvTried : TriedPlace → Int) (vvNew : NewPlace → Int) : Prop where
  noEntry : entries (-1) = none
  sound : ∀ id entry, entries id = some entry → entry.Sound
  tried : ∀ place id, id ≠ -1 → (vvTried place = id ↔ ∃ entry, entries id = some entry ∧
    entry.fInTried = true ∧ entry.triedPlace env nKey = place)
  new : ∀ place, vvNew place ≠ -1 → ∃ entry, entries (vvNew place) = some entry ∧
    entry.newPlace env nKey place.1 = place
  references : ∀ id entry, entries id = some entry → (occurrences vvNew id : Int) = entry.nRefCount

def Referenced (loose : Int → Prop) (entries : Int → Option CAddrInfo) : Prop :=
  ∀ id entry, entries id = some entry → entry.fInTried = false → ¬loose id → 1 ≤ entry.nRefCount

namespace Referenced

variable {loose : Int → Prop} {entries : Int → Option CAddrInfo} {id : Int} {entry : CAddrInfo}

theorem of_settled (referenced : Referenced (fun other => loose other ∨ other = id) entries)
    (here : ∀ entry, entries id = some entry → entry.fInTried = false → 1 ≤ entry.nRefCount) :
    Referenced loose entries := by
  intro other found present new kept
  by_cases same : other = id
  · rw [same] at present
    exact here found present new
  · exact referenced other found present new (not_or.mpr ⟨kept, same⟩)

section

variable (referenced : Referenced loose entries)
include referenced

theorem update (here : entry.fInTried = false → ¬loose id → 1 ≤ entry.nRefCount) :
    Referenced loose (Function.update entries id (some entry)) :=
  forall_update_some here fun other found _ => referenced other found

theorem update_loose :
    Referenced (fun other => loose other ∨ other = id)
      (Function.update entries id (some entry)) := by
  have weaker : Referenced (fun other => loose other ∨ other = id) entries :=
    fun other found present new kept =>
      referenced other found present new fun was => kept (.inl was)
  exact weaker.update fun _ kept => absurd (.inr rfl) kept

theorem remove : Referenced loose (Function.update entries id none) := by
  intro other found present
  exact referenced other found (update_none_eq_some.mp present).2

end

end Referenced

namespace AddrTables

variable {env : AddrEnv} {nKey : UInt256} {entries : Int → Option CAddrInfo}
  {vvTried : TriedPlace → Int} {vvNew : NewPlace → Int} {id : Int} {entry after : CAddrInfo}

theorem empty : AddrTables env nKey (fun _ => none) (fun _ => -1) (fun _ => -1) where
  noEntry := rfl
  sound _ entry known := absurd known (Option.some_ne_none entry).symm
  tried place id valid := by
    refine iff_of_false (fun same => valid same.symm) ?_
    rintro ⟨entry, absurdly, -⟩
    cases absurdly
  new place occupied := absurd rfl occupied
  references _ entry known := absurd known (Option.some_ne_none entry).symm

variable (tables : AddrTables env nKey entries vvTried vvNew)
include tables

theorem ne_of_present (present : entries id = some entry) : id ≠ -1 := by
  rintro rfl
  rw [tables.noEntry] at present
  cases present

theorem vvNew_ne_of_absent (absent : entries id = none) (valid : id ≠ -1) (place : NewPlace) :
    vvNew place ≠ id := by
  rintro rfl
  obtain ⟨entry, present, -⟩ := tables.new place valid
  rw [absent] at present
  cases present

section

variable (present : entries id = some entry)
include present

theorem refCount_nonneg : 0 ≤ entry.nRefCount := by
  rw [← tables.references id entry present]
  exact Int.natCast_nonneg _

theorem refCount_pos {place : NewPlace} (holds : vvNew place = id) : 0 < entry.nRefCount := by
  rw [← tables.references id entry present]
  exact Int.natCast_pos.mpr (occurrences_pos holds)

theorem vvNew_ne_of_unreferenced (none : entry.nRefCount = 0) (place : NewPlace) :
    vvNew place ≠ id := by
  intro holds
  have positive := tables.refCount_pos present holds
  omega

theorem not_tried_of_new {place : NewPlace} (holds : vvNew place = id) :
    entry.fInTried = false := by
  rw [← Bool.not_eq_true]
  intro inTried
  have none := (tables.sound id entry present).unreferenced inTried
  exact tables.vvNew_ne_of_unreferenced present none place holds

end

variable {place : TriedPlace} {other : Int}

theorem tried_update (value : Option CAddrInfo) (differ : other ≠ id) (valid : other ≠ -1) :
    vvTried place = other ↔ ∃ found, Function.update entries id value other = some found ∧
      found.fInTried = true ∧ found.triedPlace env nKey = place := by
  rw [update_of_ne differ]
  exact tables.tried place other valid

theorem tried_update_some (present : entries id = some entry)
    (service : after.service = entry.service) (inTried : after.fInTried = entry.fInTried)
    (valid : other ≠ -1) :
    vvTried place = other ↔ ∃ found, Function.update entries id (some after) other = some found ∧
      found.fInTried = true ∧ found.triedPlace env nKey = place := by
  by_cases same : other = id
  · subst other
    rw [tables.tried place id valid, present, update_self]
    simp only [Option.some_inj, exists_eq_left', inTried, CAddrInfo.triedPlace,
      CAddrInfo.getTriedBucket, CAddrInfo.getBucketPosition, CAddress.netAddr, service]
  · exact tables.tried_update _ same valid

theorem noEntry_update (present : entries id = some entry) (value : Option CAddrInfo) :
    Function.update entries id value (-1) = none := by
  rw [update_of_ne (tables.ne_of_present present).symm]
  exact tables.noEntry

theorem sound_update (sound : after.Sound) : ∀ other found,
    Function.update entries id (some after) other = some found → found.Sound :=
  forall_update_some sound fun other found _ => tables.sound other found

section

variable (present : entries id = some entry)
include present

theorem references_update (refCount : after.nRefCount = entry.nRefCount) : ∀ other found,
    Function.update entries id (some after) other = some found →
      (occurrences vvNew other : Int) = found.nRefCount := by
  refine forall_update_some ?_ fun other found _ => tables.references other found
  rw [refCount]
  exact tables.references id entry present

theorem new_update (service : after.service = entry.service) {place : NewPlace}
    (occupied : vvNew place ≠ -1) :
    ∃ found, Function.update entries id (some after) (vvNew place) = some found ∧
      found.newPlace env nKey place.1 = place := by
  obtain ⟨found, known, hashed⟩ := tables.new place occupied
  by_cases same : vvNew place = id
  · rw [same] at known ⊢
    rw [present, Option.some_inj] at known
    subst found
    refine ⟨after, update_self .., ?_⟩
    rw [← hashed]
    simp only [CAddrInfo.newPlace, CAddrInfo.getBucketPosition, service]
  · rw [update_of_ne same]
    exact ⟨found, known, hashed⟩

theorem update (service : after.service = entry.service) (inTried : after.fInTried = entry.fInTried)
    (refCount : after.nRefCount = entry.nRefCount) (sound : after.Sound) :
    AddrTables env nKey (Function.update entries id (some after)) vvTried vvNew where
  noEntry := tables.noEntry_update present _
  sound := tables.sound_update sound
  tried _ _ valid := tables.tried_update_some present service inTried valid
  new _ occupied := tables.new_update present service occupied
  references := tables.references_update present refCount

end

theorem insert (valid : id ≠ -1) (absent : entries id = none) (new : after.fInTried = false)
    (none : after.nRefCount = 0) (sound : after.Sound) :
    AddrTables env nKey (Function.update entries id (some after)) vvTried vvNew where
  noEntry := by
    rw [update_of_ne valid.symm]
    exact tables.noEntry
  sound := tables.sound_update sound
  tried place other valid := by
    by_cases same : other = id
    · subst other
      rw [tables.tried place id valid, absent, update_self]
      refine iff_of_false (fun ⟨found, known, _⟩ => Option.some_ne_none found known.symm) ?_
      rintro ⟨found, known, inTried, -⟩
      cases known
      rw [new] at inTried
      cases inTried
    · exact tables.tried_update _ same valid
  new place occupied := by
    rw [update_of_ne (tables.vvNew_ne_of_absent absent valid place)]
    exact tables.new place occupied
  references := by
    refine forall_update_some ?_ fun other found _ => tables.references other found
    rw [none, occurrences_eq_zero_iff.mpr (tables.vvNew_ne_of_absent absent valid)]
    rfl

section

variable (present : entries id = some entry)
include present

theorem remove (new : entry.fInTried = false) (none : entry.nRefCount = 0) :
    AddrTables env nKey (Function.update entries id Option.none) vvTried vvNew where
  noEntry := tables.noEntry_update present _
  sound other found known := tables.sound other found (update_none_eq_some.mp known).2
  tried place other valid := by
    by_cases same : other = id
    · subst other
      rw [tables.tried place id valid, present, update_self]
      refine iff_of_false ?_ fun ⟨found, known, _⟩ => Option.some_ne_none found known.symm
      rintro ⟨found, known, inTried, -⟩
      cases known
      rw [new] at inTried
      cases inTried
    · exact tables.tried_update _ same valid
  new place occupied := by
    rw [update_of_ne (tables.vvNew_ne_of_unreferenced present none place)]
    exact tables.new place occupied
  references other found known := tables.references other found (update_none_eq_some.mp known).2

theorem leaveNew {place : NewPlace} (holds : vvNew place = id) :
    AddrTables env nKey
      (Function.update entries id (some { entry with nRefCount := entry.nRefCount - 1 }))
      vvTried (Function.update vvNew place (-1)) where
  noEntry := tables.noEntry_update present _
  sound := tables.sound_update
    { tables.sound id entry present with
      unreferenced := fun inTried => by
        rw [tables.not_tried_of_new present holds] at inTried
        cases inTried
      atMost := by
        have before := (tables.sound id entry present).atMost
        dsimp only
        omega }
  tried _ _ valid := tables.tried_update_some present (by rfl) (by rfl) valid
  new other occupied := by
    by_cases same : other = place
    · subst other
      exact absurd (update_self ..) occupied
    · rw [update_of_ne same] at occupied ⊢
      exact tables.new_update present (by rfl) occupied
  references := by
    refine forall_update_some ?_ fun other found same known => ?_
    · have one := occurrences_update_add_one holds (tables.ne_of_present present).symm
      have before := tables.references id entry present
      dsimp only
      omega
    · rw [occurrences_update_of_ne (by rw [holds]; exact Ne.symm same)
        (tables.ne_of_present known).symm]
      exact tables.references other found known

theorem enterNew {place : NewPlace} (new : entry.fInTried = false)
    (below : entry.nRefCount < newBucketsPerAddress) (free : vvNew place = -1)
    (hashed : entry.newPlace env nKey place.1 = place) :
    AddrTables env nKey
      (Function.update entries id (some { entry with nRefCount := entry.nRefCount + 1 }))
      vvTried (Function.update vvNew place id) where
  noEntry := tables.noEntry_update present _
  sound := tables.sound_update
    { tables.sound id entry present with
      unreferenced := fun inTried => by
        rw [new] at inTried
        cases inTried
      atMost := Int.add_one_le_of_lt below }
  tried _ _ valid := tables.tried_update_some present (by rfl) (by rfl) valid
  new other occupied := by
    by_cases same : other = place
    · subst other
      rw [update_self, update_self]
      exact ⟨_, rfl, hashed⟩
    · rw [update_of_ne same] at occupied ⊢
      exact tables.new_update present (by rfl) occupied
  references := by
    have vacant : ∀ {some}, some ≠ -1 → vvNew place ≠ some := fun valid => free ▸ valid.symm
    refine forall_update_some ?_ fun other found same known => ?_
    · have one := occurrences_update_self (vacant (tables.ne_of_present present))
      have before := tables.references id entry present
      dsimp only
      omega
    · rw [occurrences_update_of_ne (vacant (tables.ne_of_present known)) (Ne.symm same)]
      exact tables.references other found known

end

/-- The tried table is written at the place of an entry, and the entry says so. -/
theorem moveTried (after : CAddrInfo) (value : Int) (present : entries id = some entry)
    (service : after.service = entry.service) (refCount : after.nRefCount = entry.nRefCount)
    (sound : after.Sound) (here : after.triedPlace env nKey = place)
    (holds : value = if after.fInTried then id else -1)
    (before : vvTried place = if after.fInTried then -1 else id) :
    AddrTables env nKey (Function.update entries id (some after))
      (Function.update vvTried place value) vvNew where
  noEntry := tables.noEntry_update present _
  sound := tables.sound_update sound
  tried other otherId valid := by
    have placed : entry.triedPlace env nKey = place := by
      rw [← here]
      simp only [CAddrInfo.triedPlace, CAddrInfo.getTriedBucket, CAddrInfo.getBucketPosition,
        CAddress.netAddr, service]
    by_cases same : otherId = id
    · subst otherId
      rw [update_self]
      simp only [Option.some_inj, exists_eq_left', here]
      by_cases inPlace : other = place
      · subst other
        rw [update_self, holds]
        cases inTried : after.fInTried with
        | false => simpa using valid.symm
        | true => simp
      · rw [update_of_ne inPlace]
        refine iff_of_false (fun found => ?_) fun found => inPlace found.2.symm
        obtain ⟨known, entered, -, hashed⟩ := (tables.tried other id valid).mp found
        rw [present, Option.some_inj] at entered
        subst known
        exact inPlace (hashed.symm.trans placed)
    · rw [← tables.tried_update (some after) same valid]
      by_cases inPlace : other = place
      · subst other
        rw [update_self, holds, before]
        cases after.fInTried with
        | false => simp [Ne.symm same, valid.symm]
        | true => simp [Ne.symm same, valid.symm]
      · rw [update_of_ne inPlace]
  new _ occupied := tables.new_update present service occupied
  references := tables.references_update present refCount

end AddrTables

end DogeCash
