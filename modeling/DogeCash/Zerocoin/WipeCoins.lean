import DogeCash.Foundation.SortedStore
import DogeCash.Primitives.Unserialize

/-! # Wiping the zerocoin database

`CZerocoinDB::WipeCoins` goes through the records of one kind with a cursor and then erases the
keys that it put together on the way. It puts them together from the values of the records, which
are the hashes of transactions, and not from their keys, which hold the hashes of coins or of
serial numbers. So a record goes only if the hash in its key is the value of a record of the same
kind.
-/

namespace DogeCash

open UInt256 (serialize unserialize codes)

/-- Bytes are compared as unsigned numbers, as `memcmp` does. -/
instance linearOrderUInt8 : LinearOrder UInt8 where
  le_refl := UInt8.le_refl
  le_trans _ _ _ := UInt8.le_trans
  le_antisymm _ _ := UInt8.le_antisymm
  le_total := UInt8.le_total
  lt_iff_le_not_ge _ _ := by
    rw [UInt8.not_le]
    exact (and_iff_right_of_imp UInt8.le_of_lt).symm
  toDecidableLE := inferInstance

/-- What is stored by a `CLevelDBWrapper`, in the order of the keys. -/
abbrev CLevelDBWrapper := SortedStore (List UInt8) (List UInt8)

inductive CoinKind where
  | mints | spends

namespace CoinKind

/-- The name that `WipeCoins` knows the kind by. -/
def name : CoinKind → String
  | mints => "mints"
  | spends => "spends"

def letter : CoinKind → UInt8
  | mints => UInt8.ofNat 'm'.toNat
  | spends => UInt8.ofNat 's'.toNat

end CoinKind

/-- The bytes of `make_pair(type, hash)`. -/
def coinKey (type : UInt8) (hash : UInt256) : List UInt8 := type :: serialize hash

def hasLetter (type : UInt8) (key : List UInt8) : Bool := key.head? = some type

namespace CZerocoinDB

/-- `ReadCoinMint` and `ReadCoinSpend`: the hash of the transaction, if the key is there and its
value is long enough. -/
def readCoin (db : CLevelDBWrapper) (kind : CoinKind) (hash : UInt256) : Option UInt256 := do
  let strValue ← db.get (coinKey kind.letter hash)
  let (value, _) ← unserialize strValue
  pure value

/-- The loop of `WipeCoins` over the records from a position of the cursor on; `none` where reading
a record throws. -/
def collectHashes (type : UInt8) :
    List (List UInt8 × List UInt8) → List UInt256 → Option (List UInt256)
  | [], setDelete => some setDelete
  | ([], _) :: _, _ => none
  | (chType :: _, slValue) :: pcursor, setDelete =>
    if chType = type then do
      let (hash, _) ← unserialize slValue
      collectHashes type pcursor (setDelete.insert hash)
    else some setDelete

/-- `CZerocoinDB::WipeCoins`, with what it leaves. -/
def wipeCoins (db : CLevelDBWrapper) (strType : String) : Bool × CLevelDBWrapper :=
  if strType ≠ "spends" ∧ strType ≠ "mints" then (false, db)
  else
    let type := if strType = "spends" then CoinKind.spends.letter else CoinKind.mints.letter
    match collectHashes type (db.seek (coinKey type 0)) [] with
    | none => (false, db)
    | some setDelete => (true, (setDelete.map (coinKey type)).foldl SortedStore.erase db)

def records (db : CLevelDBWrapper) (type : UInt8) : List (List UInt8 × List UInt8) :=
  db.scan (coinKey type 0) (hasLetter type)

/-- Nothing of the kind is left, and the rest is as it was. -/
structure Wiped (kind : CoinKind) (before after : CLevelDBWrapper) : Prop where
  gone : ∀ entry ∈ after.entries, hasLetter kind.letter entry.1 = false
  unread : ∀ hash, readCoin after kind hash = none
  others : ∀ key, hasLetter kind.letter key = false → after.get key = before.get key

def HasShortRecord (db : CLevelDBWrapper) (type : UInt8) : Prop :=
  ∃ entry ∈ db.entries, hasLetter type entry.1 = true ∧ coinKey type 0 ≤ entry.1 ∧
    entry.2.length < 32

/-- The key of every record of the kind is the key of a hash that some record of the kind holds
as its value. -/
def KeysAreValues (db : CLevelDBWrapper) (type : UInt8) : Prop :=
  ∀ entry ∈ db.entries, hasLetter type entry.1 = true →
    ∃ other ∈ db.entries, hasLetter type other.1 = true ∧
      ∃ hash rest, other.2 = serialize hash ++ rest ∧ entry.1 = coinKey type hash

/-! ## What the cursor sees -/

theorem hasLetter_coinKey (type : UInt8) (hash : UInt256) :
    hasLetter type (coinKey type hash) = true :=
  decide_eq_true rfl

theorem unserialize_eq_none {value : List UInt8} :
    unserialize value = none ↔ value.length < 32 := by
  have read : unserialize value = (Reader.take 32 value).map fun pair =>
      (BitVec.ofNat 256 (LittleEndian.value pair.1), pair.2) := by
    change ((Reader.take 32 value).bind _).bind _ = _
    cases Reader.take 32 value <;> rfl
  rw [read, Option.map_eq_none_iff, Reader.take, ite_eq_right_iff]
  exact (imp_iff_not (Option.some_ne_none _)).trans not_le

variable {type chType : UInt8} {db after : CLevelDBWrapper}

theorem hasLetter_cons {rest : List UInt8} :
    hasLetter type (chType :: rest) = true ↔ chType = type := by
  rw [hasLetter, decide_eq_true_iff, List.head?_cons, Option.some_inj]

variable {type : UInt8} {db : CLevelDBWrapper} {entry : List UInt8 × List UInt8}
    {pcursor : List (List UInt8 × List UInt8)} {kind : CoinKind}

theorem hasLetter_of_lt (hash : UInt256) (first second : List UInt8)
    (reached : coinKey type hash ≤ first) (before : first < second)
    (ofKind : hasLetter type second = true) : hasLetter type first = true := by
  cases first with
  | nil => exact absurd (List.Lex.nil : [] < coinKey type hash) (not_lt.mpr reached)
  | cons chType rest =>
    cases second with
    | nil => exact absurd before (not_lt.mpr
        (show [] < chType :: rest from List.Lex.nil).le)
    | cons last tail =>
      rw [hasLetter_cons] at ofKind ⊢
      subst ofKind
      refine le_antisymm (List.head_le_of_lt before) ?_
      rcases lt_or_eq_of_le reached with below | same
      · exact List.head_le_of_lt below
      · exact (List.cons.inj same).1.le

theorem replicate_zero_le (s : List UInt8) : List.replicate s.length 0 ≤ s := by
  induction s with
  | nil => exact le_rfl
  | cons first rest ih =>
    by_cases zero : first = 0
    · rw [zero]
      exact List.cons_le_cons 0 ih
    · refine le_of_lt (List.Lex.rel (UInt8.pos_iff_ne_zero.mpr zero))

theorem coinKey_zero_le (type : UInt8) (hash : UInt256) : coinKey type 0 ≤ coinKey type hash := by
  have first := replicate_zero_le (serialize hash)
  exact List.cons_le_cons type first

theorem mem_records :
    entry ∈ records db type ↔
      entry ∈ db.entries ∧ coinKey type 0 ≤ entry.1 ∧ hasLetter type entry.1 = true :=
  SortedStore.mem_scan (hasLetter_of_lt 0)

def front (type : UInt8) (pcursor : List (List UInt8 × List UInt8)) :
    List (List UInt8 × List UInt8) :=
  pcursor.takeWhile fun entry => hasLetter type entry.1

theorem front_cons_of_eq (same : chType = type) (rest slValue : List UInt8)
    (pcursor : List (List UInt8 × List UInt8)) :
    front type ((chType :: rest, slValue) :: pcursor) =
      (chType :: rest, slValue) :: front type pcursor :=
  List.takeWhile_cons_of_pos (by exact hasLetter_cons.mpr same)

theorem front_cons_of_ne (other : chType ≠ type) (rest slValue : List UInt8)
    (pcursor : List (List UInt8 × List UInt8)) :
    front type ((chType :: rest, slValue) :: pcursor) = [] :=
  List.takeWhile_cons_of_neg (by exact hasLetter_cons.not.mpr other)

theorem collectHashes_eq_none (type : UInt8) (spelled : ∀ entry ∈ pcursor, entry.1 ≠ [])
    (setDelete : List UInt256) :
    collectHashes type pcursor setDelete = none ↔
      ∃ entry ∈ front type pcursor, entry.2.length < 32 := by
  induction pcursor generalizing setDelete with
  | nil => simp [collectHashes, front]
  | cons entry pcursor ih =>
    obtain ⟨key, slValue⟩ := entry
    obtain ⟨here, others⟩ := List.forall_mem_cons.mp spelled
    obtain ⟨chType, -, rfl⟩ := List.exists_cons_of_ne_nil here
    rw [collectHashes]
    by_cases same : chType = type
    · rw [if_pos same, front_cons_of_eq same, List.exists_mem_cons_iff, ← unserialize_eq_none]
      cases read : unserialize slValue with
      | none => exact iff_of_true rfl (Or.inl rfl)
      | some pair =>
        rw [← ih others]
        exact (or_iff_right (Option.some_ne_none _)).symm
    · rw [if_neg same, front_cons_of_ne same]
      exact iff_of_false (Option.some_ne_none _) (by simp)

theorem mem_collectHashes {setDelete hashes : List UInt256}
    (collected : collectHashes type pcursor setDelete = some hashes) (hash : UInt256) :
    hash ∈ hashes ↔ hash ∈ setDelete ∨
      ∃ entry ∈ front type pcursor, ∃ rest, entry.2 = serialize hash ++ rest := by
  induction pcursor generalizing setDelete with
  | nil =>
    cases collected
    simp [front]
  | cons entry pcursor ih =>
    obtain ⟨key, slValue⟩ := entry
    cases key with
    | nil => cases collected
    | cons chType rest =>
      rw [collectHashes] at collected
      split_ifs at collected with same
      · obtain ⟨⟨value, left⟩, read, collected⟩ := Option.bind_eq_some_iff.mp collected
        have written := codes.canonical read
        rw [ih collected, List.mem_insert_iff, front_cons_of_eq same, List.exists_mem_cons_iff,
          or_assoc, or_left_comm]
        refine or_congr_right (or_congr_left ?_)
        constructor
        · intro same
          exact ⟨left, same ▸ written⟩
        · intro holds
          obtain ⟨others, spelled⟩ := holds
          have again := codes.roundTrip (a := hash) trivial others
          rw [← spelled, read] at again
          exact (Prod.mk.inj (Option.some.inj again)).1.symm
      · cases collected
        rw [front_cons_of_ne same]
        simp

theorem ne_nil_of_mem_seek {hash : UInt256} (mem : entry ∈ db.seek (coinKey type hash)) :
    entry.1 ≠ [] := by
  intro nothing
  have reached := (SortedStore.mem_seek.mp mem).2
  rw [nothing] at reached
  exact absurd (List.Lex.nil : [] < coinKey type hash) (not_lt.mpr reached)

/-! ## What is wiped -/

theorem wipeCoins_name (db : CLevelDBWrapper) (kind : CoinKind) :
    wipeCoins db kind.name =
      match collectHashes kind.letter (db.seek (coinKey kind.letter 0)) [] with
      | none => (false, db)
      | some setDelete =>
        (true, (setDelete.map (coinKey kind.letter)).foldl SortedStore.erase db) := by
  cases kind <;> rfl

theorem wipeCoins_fst (db : CLevelDBWrapper) (kind : CoinKind) :
    (wipeCoins db kind.name).1 = false ↔ HasShortRecord db kind.letter := by
  have short := collectHashes_eq_none kind.letter
    (fun entry (mem : entry ∈ db.seek (coinKey kind.letter 0)) => ne_nil_of_mem_seek mem) []
  have same : (∃ entry ∈ records db kind.letter, entry.2.length < 32) ↔
      HasShortRecord db kind.letter := by
    refine exists_congr fun entry => ?_
    rw [mem_records, and_assoc, and_assoc, and_left_comm (a := coinKey _ _ ≤ _)]
  rw [← same, wipeCoins_name]
  refine Iff.trans ?_ short
  cases collectHashes kind.letter (db.seek (coinKey kind.letter 0)) [] with
  | none => exact iff_of_true rfl rfl
  | some hashes => exact iff_of_false Bool.true_eq_false.mp (Option.some_ne_none _)

theorem mem_wipeCoins (wiped : wipeCoins db kind.name = (true, after))
    (entry : List UInt8 × List UInt8) :
    entry ∈ after.entries ↔ entry ∈ db.entries ∧
      ¬∃ other ∈ records db kind.letter, ∃ hash rest,
        other.2 = serialize hash ++ rest ∧ entry.1 = coinKey kind.letter hash := by
  rw [wipeCoins_name] at wiped
  cases collected : collectHashes kind.letter (db.seek (coinKey kind.letter 0)) [] with
  | none =>
    rw [collected] at wiped
    cases wiped
  | some hashes =>
    rw [collected] at wiped
    obtain rfl := (Prod.mk.inj wiped).2
    rw [SortedStore.mem_foldl_erase, List.mem_map]
    refine and_congr_right fun _ => not_congr ?_
    constructor
    · intro erased
      obtain ⟨hash, mem, same⟩ := erased
      obtain ⟨other, record, rest, spelled⟩ :=
        ((mem_collectHashes collected hash).mp mem).resolve_left List.not_mem_nil
      exact ⟨other, record, hash, rest, spelled, same.symm⟩
    · intro erased
      obtain ⟨other, record, hash, rest, spelled, same⟩ := erased
      exact ⟨hash, (mem_collectHashes collected hash).mpr (Or.inr ⟨other, record, rest, spelled⟩),
        same.symm⟩

theorem wiped_iff (wiped : wipeCoins db kind.name = (true, after)) :
    Wiped kind db after ↔ KeysAreValues db kind.letter := by
  have left := mem_wipeCoins wiped
  constructor
  · intro clean entry mem ofKind
    by_contra kept
    have stays : entry ∈ after.entries := by
      refine (left entry).mpr ⟨mem, fun erased => kept ?_⟩
      obtain ⟨other, record, held⟩ := erased
      obtain ⟨present, -, also⟩ := mem_records.mp record
      exact ⟨other, present, also, held⟩
    rw [clean.gone entry stays] at ofKind
    cases ofKind
  · intro covered
    have gone : ∀ entry ∈ after.entries, hasLetter kind.letter entry.1 = false := by
      intro entry stays
      obtain ⟨mem, kept⟩ := (left entry).mp stays
      by_contra ofKind
      rw [Bool.not_eq_false] at ofKind
      obtain ⟨other, present, also, hash, rest, holds, same⟩ := covered entry mem ofKind
      obtain ⟨-, -, -, own, -, -, spelled⟩ := covered other present also
      refine kept ⟨other, mem_records.mpr ⟨present, ?_, also⟩, hash, rest, holds, same⟩
      rw [spelled]
      exact coinKey_zero_le _ own
    refine ⟨gone, fun hash => ?_, fun key otherKind => SortedStore.get_congr fun value => ?_⟩
    · have absent : after.get (coinKey kind.letter hash) = none := by
        refine SortedStore.get_eq_none.mpr fun entry stays same => ?_
        have ofKind := gone entry stays
        rw [same, hasLetter_coinKey] at ofKind
        cases ofKind
      rw [readCoin, absent]
      rfl
    · rw [left (key, value)]
      refine and_iff_left fun erased => ?_
      obtain ⟨-, -, hash, -, -, same⟩ := erased
      rw [show key = coinKey kind.letter hash from same, hasLetter_coinKey] at otherKind
      cases otherKind

/-- Wiping removes all of a kind and nothing else, where it returns `true`, exactly if some record
of the kind is too short, or all keys of the kind are the keys of its values. -/
theorem wipeCoins_wipes_iff (db : CLevelDBWrapper) (kind : CoinKind) :
    (∀ after, wipeCoins db kind.name = (true, after) → Wiped kind db after) ↔
      HasShortRecord db kind.letter ∨ KeysAreValues db kind.letter := by
  have answer := wipeCoins_fst db kind
  cases outcome : wipeCoins db kind.name with
  | mk returned after =>
    rw [outcome] at answer
    cases returned with
    | false => exact iff_of_true (fun _ found => absurd found (by simp)) (Or.inl (answer.mp rfl))
    | true =>
      rw [or_iff_right (answer.not.mp Bool.true_eq_false.mp), ← wiped_iff outcome]
      constructor
      · intro all
        exact all after rfl
      · intro clean other same
        rwa [← (Prod.mk.inj same).2]

def oneMint : CLevelDBWrapper where
  entries := [(coinKey CoinKind.mints.letter 1, serialize 2)]
  sorted := List.pairwise_singleton _ _

/-- The record of a mint stays, and the mint is still read. -/
theorem wipeCoins_leaves_mint :
    ¬ ∀ (db : CLevelDBWrapper) (kind : CoinKind) (after : CLevelDBWrapper),
      wipeCoins db kind.name = (true, after) → Wiped kind db after := by
  intro wipes
  have record : ∀ entry ∈ oneMint.entries,
      entry = (coinKey CoinKind.mints.letter 1, serialize 2) :=
    fun entry mem => List.mem_singleton.mp mem
  have long : ¬HasShortRecord oneMint CoinKind.mints.letter := by
    intro short
    obtain ⟨entry, mem, -, -, tooShort⟩ := short
    rw [record entry mem, serialize, LittleEndian.length_bytes] at tooShort
    exact absurd tooShort (lt_irrefl 32)
  have answer := (wipeCoins_fst oneMint .mints).not.mpr long
  rw [Bool.not_eq_false] at answer
  have clean := wipes oneMint .mints _ (Prod.ext answer rfl)
  obtain ⟨other, mem, -, hash, rest, value, key⟩ := (wiped_iff (Prod.ext answer rfl)).mp clean
    (coinKey CoinKind.mints.letter 1, serialize 2) List.mem_cons_self
    (hasLetter_coinKey _ _)
  rw [record other mem] at value
  have first : serialize 1 = serialize hash := List.tail_eq_of_cons_eq key
  have one := codes.roundTrip (a := 1) trivial rest
  have two := codes.roundTrip (a := 2) trivial []
  rw [List.append_nil, show serialize 2 = serialize hash ++ rest from value,
    ← first, one] at two
  exact absurd (Prod.mk.inj (Option.some.inj two)).1 (by decide)

end CZerocoinDB

end DogeCash
