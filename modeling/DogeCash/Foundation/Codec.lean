import DogeCash.Foundation.LittleEndian

/-! # Readers and the strings they accept

A reader takes a value from the front of a string and leaves the rest. It goes with a way of
writing if it accepts exactly what is written for the valid values (`Codes`): what is written
is read back whatever follows it, and nothing else is accepted. Readers that go one after the
other go with what is written one after the other, and the length of a list may be read before
its items, all at once or in chunks. Where a reader accepts more than what is written, or where
what is written is not read as the same value, `Parses` says what becomes of a string in front of
others. A map is the map of the entries that it is written as.
-/

namespace DogeCash

open List (append_assoc flatMap_cons forall_mem_cons mem_cons not_mem_nil)

universe u

theorem map_eq_self {α : Type*} {f : α → α} {items : List α} :
    items.map f = items ↔ ∀ a ∈ items, f a = a := by
  have same : items.map f = items.map id ↔ ∀ a ∈ items, f a = a := List.map_inj_left
  rwa [List.map_id] at same

abbrev Reader (σ α : Type u) : Type u := StateT (List σ) Option α

variable {σ α β : Type u}

/-- A reader accepts exactly what the writer writes of valid values. -/
def Codes (read : Reader σ α) (write : α → List σ) (valid : α → Prop) : Prop :=
  ∀ s a rest, read s = some (a, rest) ↔ valid a ∧ s = write a ++ rest

namespace Codes

variable {read : Reader σ α} {write : α → List σ} {valid : α → Prop}

section

variable (codes : Codes read write valid)
include codes

variable {a : α} {s rest : List σ}

theorem roundTrip (ok : valid a) (rest : List σ) : read (write a ++ rest) = some (a, rest) :=
  (codes _ _ _).mpr ⟨ok, rfl⟩

theorem canonical (accepted : read s = some (a, rest)) : s = write a ++ rest :=
  ((codes _ _ _).mp accepted).2

theorem bind_eq_some {next : α → Reader σ β} {b : β} :
    (read >>= next) s = some (b, rest) ↔
      ∃ a mid, (valid a ∧ s = write a ++ mid) ∧ next a mid = some (b, rest) := by
  refine Option.bind_eq_some_iff.trans ?_
  rw [Prod.exists]
  exact exists_congr fun a => exists_congr fun mid => and_congr_left' (codes s a mid)

theorem map {convert : α → β} {back : β → α} {validImage : β → Prop}
    (there : ∀ a, valid a → validImage (convert a) ∧ back (convert a) = a)
    (again : ∀ b, validImage b → valid (back b) ∧ convert (back b) = b) :
    Codes (convert <$> read) (fun b => write (back b)) validImage := by
  intro s b rest
  have mapped : (convert <$> read) s = (read s).map fun pair => (convert pair.1, pair.2) := by
    rw [Option.map_eq_bind]
    rfl
  rw [mapped, Option.map_eq_some_iff]
  constructor
  · intro found
    obtain ⟨⟨a, left⟩, accepted, same⟩ := found
    obtain ⟨rfl, rfl⟩ := Prod.mk.inj same
    obtain ⟨ok, written⟩ := (codes _ _ _).mp accepted
    obtain ⟨image, inverse⟩ := there a ok
    exact ⟨image, written.trans (congrArg (write · ++ left) inverse.symm)⟩
  · intro found
    obtain ⟨ok, written⟩ := found
    obtain ⟨source, inverse⟩ := again b ok
    exact ⟨(back b, rest), (codes _ _ _).mpr ⟨source, written⟩, by rw [inverse]⟩

theorem congr {other : α → List σ} {also : α → Prop} (valids : ∀ a, valid a ↔ also a)
    (writes : ∀ a, also a → write a = other a) :
    Codes read other also := by
  intro s a rest
  refine (codes s a rest).trans ?_
  rw [valids a]
  exact and_congr_right fun ok => by rw [writes a ok]

end

end Codes

namespace Reader

theorem pure_eq_some {a b : α} {s rest : List σ} :
    (pure a : Reader σ α) s = some (b, rest) ↔ a = b ∧ s = rest := by
  refine Option.some_inj.trans ?_
  rw [Prod.mk.injEq]

variable {read : Reader σ α} {write : α → List σ} {valid : α → Prop}

theorem refuse_eq_some {refused : Prop} [Decidable refused] {s rest : List σ} {a : α} :
    (if refused then failure else read : Reader σ α) s = some (a, rest) ↔
      ¬refused ∧ read s = some (a, rest) := by
  by_cases bad : refused
  · rw [if_pos bad]
    exact iff_of_false (Option.some_ne_none _).symm fun found => found.1 bad
  · rw [if_neg bad]
    exact (and_iff_right bad).symm

theorem codes_refuse (codes : Codes read write valid) (refused : α → Prop) [DecidablePred refused] :
    Codes (do let a ← read; if refused a then failure else pure a) write
      (fun a => valid a ∧ ¬refused a) := by
  intro s b rest
  rw [codes.bind_eq_some]
  constructor
  · intro found
    obtain ⟨a, mid, ⟨ok, written⟩, later⟩ := found
    obtain ⟨kept, final⟩ := refuse_eq_some.mp later
    obtain ⟨rfl, rfl⟩ := pure_eq_some.mp final
    exact ⟨⟨ok, kept⟩, written⟩
  · intro found
    obtain ⟨⟨ok, kept⟩, written⟩ := found
    exact ⟨b, rest, ⟨ok, written⟩, refuse_eq_some.mpr ⟨kept, pure_eq_some.mpr ⟨rfl, rfl⟩⟩⟩

def onlyIf (present : Prop) [Decidable present] (read : Reader σ α) (absent : α) : Reader σ α :=
  if present then read else pure absent

theorem codes_onlyIf (codes : Codes read write valid) (present : Prop) [Decidable present]
    (absent : α) :
    Codes (onlyIf present read absent) (fun a => if present then write a else [])
      (fun a => if present then valid a else a = absent) := by
  unfold onlyIf
  by_cases here : present
  · simp only [if_pos here]
    exact codes
  · simp only [if_neg here]
    intro s a rest
    rw [pure_eq_some, List.nil_append, eq_comm]

def take (size : ℕ) : Reader σ (List σ) := fun s =>
  if size ≤ s.length then some (s.take size, s.drop size) else none

theorem codes_take (size : ℕ) :
    Codes (take size) (fun a : List σ => a) (fun a => a.length = size) := by
  intro s a rest
  rw [take]
  constructor
  · intro accepted
    split_ifs at accepted with fits
    obtain ⟨rfl, rfl⟩ := Prod.mk.inj (Option.some.inj accepted)
    exact ⟨List.length_take_of_le fits, (List.take_append_drop _ _).symm⟩
  · intro written
    obtain ⟨rfl, rfl⟩ := written
    rw [if_pos (by rw [List.length_append]; exact Nat.le_add_right _ _), List.take_left,
      List.drop_left]

def number (width : ℕ) : Reader UInt8 ℕ := LittleEndian.value <$> take width

theorem codes_number (width : ℕ) :
    Codes (number width) (LittleEndian.bytes width) (fun n => n < 256 ^ width) :=
  (codes_take width).map
    (fun s length => ⟨length ▸ LittleEndian.value_lt s, LittleEndian.bytes_value length⟩)
    fun n fits => ⟨LittleEndian.length_bytes width n, LittleEndian.value_bytes_of_lt fits⟩

/-- Some values, one after the other. -/
def many (read : Reader σ α) : ℕ → Reader σ (List α)
  | 0 => pure []
  | count + 1 => do
    let a ← read
    let rest ← many read count
    pure (a :: rest)

theorem codes_many (codes : Codes read write valid) (count : ℕ) :
    Codes (many read count) (fun items => items.flatMap write)
      (fun items => items.length = count ∧ ∀ a ∈ items, valid a) := by
  induction count with
  | zero =>
    intro s items rest
    rw [many, pure_eq_some]
    constructor
    · intro found
      obtain ⟨rfl, rfl⟩ := found
      exact ⟨⟨rfl, nofun⟩, rfl⟩
    · intro found
      obtain ⟨⟨length, -⟩, rfl⟩ := found
      obtain rfl := List.length_eq_zero_iff.mp length
      exact ⟨rfl, rfl⟩
  | succ count ih =>
    intro s items rest
    rw [many, codes.bind_eq_some]
    constructor
    · intro found
      obtain ⟨a, mid, ⟨ok, rfl⟩, later⟩ := found
      obtain ⟨others, left, ⟨⟨length, oks⟩, rfl⟩, final⟩ := ih.bind_eq_some.mp later
      obtain ⟨rfl, rfl⟩ := pure_eq_some.mp final
      refine ⟨⟨congrArg Nat.succ length, forall_mem_cons.mpr ⟨ok, oks⟩⟩, ?_⟩
      change _ = (a :: others).flatMap write ++ left
      rw [flatMap_cons, append_assoc]
    · intro found
      obtain ⟨⟨length, oks⟩, rfl⟩ := found
      obtain ⟨a, others, rfl⟩ := List.exists_cons_of_length_eq_add_one length
      obtain ⟨ok, oks⟩ := forall_mem_cons.mp oks
      refine ⟨a, others.flatMap write ++ rest, ⟨ok, ?_⟩, ?_⟩
      · change (a :: others).flatMap write ++ rest = _
        rw [flatMap_cons, append_assoc]
      · exact ih.bind_eq_some.mpr ⟨others, rest,
          ⟨⟨Nat.succ.inj length, oks⟩, rfl⟩, pure_eq_some.mpr ⟨rfl, rfl⟩⟩

/-- Some values in chunks of a limited size. -/
def chunked (block : ℕ → Reader σ (List α)) (limit : ℕ) (positive : 0 < limit) (count : ℕ) :
    Reader σ (List α) :=
  if count = 0 then pure []
  else do
    let head ← block (min count limit)
    let rest ← chunked block limit positive (count - min count limit)
    pure (head ++ rest)
termination_by count
decreasing_by omega

theorem codes_chunked {block : ℕ → Reader σ (List α)} {write : List α → List σ}
    (nil : write [] = [])
    (append : ∀ first second, write (first ++ second) = write first ++ write second)
    (codes : ∀ size, Codes (block size) write (fun items => items.length = size ∧
      ∀ a ∈ items, valid a)) (limit : ℕ) (positive : 0 < limit) (count : ℕ) :
    Codes (chunked block limit positive count) write
      (fun items => items.length = count ∧ ∀ a ∈ items, valid a) := by
  induction count using Nat.strong_induction_on with
  | h count ih =>
    intro s items rest
    rw [chunked]
    split_ifs with none
    · rw [pure_eq_some]
      constructor
      · intro found
        obtain ⟨rfl, rfl⟩ := found
        exact ⟨⟨none.symm, nofun⟩, by rw [nil]; rfl⟩
      · intro found
        obtain ⟨⟨length, -⟩, rfl⟩ := found
        obtain rfl := List.length_eq_zero_iff.mp (length.trans none)
        exact ⟨rfl, by rw [nil]; rfl⟩
    · have fewer := ih (count - min count limit) (by omega)
      rw [(codes _).bind_eq_some]
      constructor
      · intro found
        obtain ⟨head, mid, ⟨⟨length, oks⟩, rfl⟩, later⟩ := found
        obtain ⟨tail, left, ⟨⟨others, also⟩, rfl⟩, final⟩ := fewer.bind_eq_some.mp later
        obtain ⟨rfl, rfl⟩ := pure_eq_some.mp final
        refine ⟨⟨?_, List.forall_mem_append.mpr ⟨oks, also⟩⟩, ?_⟩
        · rw [List.length_append]
          omega
        · rw [append, append_assoc]
      · intro found
        obtain ⟨⟨length, oks⟩, rfl⟩ := found
        have split := List.take_append_drop (min count limit) items
        rw [← split] at oks
        obtain ⟨first, second⟩ := List.forall_mem_append.mp oks
        refine ⟨items.take (min count limit), write (items.drop (min count limit)) ++ rest,
          ⟨⟨List.length_take_of_le (by omega), first⟩, ?_⟩, ?_⟩
        · rw [← append_assoc, ← append, split]
        · exact fewer.bind_eq_some.mpr ⟨_, rest,
            ⟨⟨by rw [List.length_drop, length], second⟩, rfl⟩, pure_eq_some.mpr ⟨split, rfl⟩⟩

/-- Rounds of reading, each of which goes on from a state, with the number of the round. -/
def rounds (body : ℕ → β → Reader σ β) : ℕ → ℕ → β → Reader σ β
  | 0, _, state => pure state
  | count + 1, round, state => do
    let state ← body round state
    rounds body count (round + 1) state

end Reader

/-- What a reader makes of a string, whatever follows it: the value, or nothing if it fails. -/
def Parses (read : Reader σ α) (s : List σ) (result : Option α) : Prop :=
  ∀ rest, read (s ++ rest) = result.map fun a => (a, rest)

theorem Codes.parses {read : Reader σ α} {write : α → List σ} {valid : α → Prop}
    (codes : Codes read write valid) {a : α} (ok : valid a) : Parses read (write a) (some a) :=
  fun rest => codes.roundTrip ok rest

namespace Parses

variable {read : Reader σ α} {s t : List σ} {a : α}

theorem pure (a : α) : Parses (Pure.pure a : Reader σ α) [] (some a) := fun _ => rfl

theorem lift (result : Option α) : Parses (StateT.lift result : Reader σ α) [] result := by
  intro rest
  cases result <;> rfl

theorem bind (first : Parses read s (some a)) {next : α → Reader σ β} {result : Option β}
    (second : Parses (next a) t result) : Parses (read >>= next) (s ++ t) result := by
  intro rest
  change (read (s ++ t ++ rest)).bind _ = _
  rw [append_assoc, first (t ++ rest)]
  exact second rest

theorem bind_none (first : Parses read s none) (next : α → Reader σ β) :
    Parses (read >>= next) (s ++ t) none := by
  intro rest
  change (read (s ++ t ++ rest)).bind _ = _
  rw [append_assoc, first (t ++ rest)]
  rfl

variable {result : Option α} {present : Prop} {write : α → List σ}

theorem map (parses : Parses read s result) (convert : α → β) :
    Parses (convert <$> read) s (result.map convert) := by
  intro rest
  change (read (s ++ rest)).bind _ = _
  rw [parses rest]
  cases result <;> rfl

theorem last (parses : Parses read s result) (convert : α → β) :
    Parses (read >>= fun a => Pure.pure (convert a)) s (result.map convert) :=
  parses.map convert

theorem onlyIf [Decidable present] (parses : present → Parses read s result) (absent : α) :
    Parses (Reader.onlyIf present read absent) (if present then s else [])
      (if present then result else some absent) := by
  unfold Reader.onlyIf
  split_ifs with here
  · exact parses here
  · exact pure absent

theorem onlyIf_some [Decidable present] (parses : present → Parses read s (some a)) (absent : α) :
    Parses (Reader.onlyIf present read absent) (if present then s else [])
      (some (if present then a else absent)) := by
  rw [apply_ite some]
  exact onlyIf parses absent

theorem many (each : ∀ a, Parses read (write a) (some a)) (items : List α) :
    Parses (Reader.many read items.length) (items.flatMap write) (some items) := by
  induction items with
  | nil => exact pure []
  | cons a items ih =>
    exact (each a).bind (ih.last _)

theorem rounds {body : ℕ → β → Reader σ β} {step : ℕ → α → β → β} {items : List α}
    (each : ∀ a ∈ items, ∀ round state, Parses (body round state) (write a)
      (some (step round a state))) (round : ℕ) (state : β) :
    Parses (Reader.rounds body items.length round state) (items.flatMap write)
      (some ((items.zipIdx round).foldl (fun state item => step item.2 item.1 state) state)) := by
  induction items generalizing round state with
  | nil => exact pure state
  | cons a items ih =>
    obtain ⟨first, others⟩ := forall_mem_cons.mp each
    exact (first round state).bind (ih others (round + 1) _)

theorem chunked {block : ℕ → Reader σ (List α)} {write : List α → List σ} (nil : write [] = [])
    (append : ∀ first second, write (first ++ second) = write first ++ write second)
    (blocks : ∀ items, Parses (block items.length) (write items) (some items)) {limit : ℕ}
    (positive : 0 < limit) (items : List α) :
    Parses (Reader.chunked block limit positive items.length) (write items) (some items) := by
  generalize size : items.length = count
  induction count using Nat.strong_induction_on generalizing items with
  | h count ih =>
    rw [Reader.chunked]
    split_ifs with none
    · obtain rfl := List.length_eq_zero_iff.mp (size.trans none)
      rw [nil]
      exact pure []
    · have split := List.take_append_drop (min count limit) items
      have head := blocks (items.take (min count limit))
      rw [List.length_take_of_le (by omega)] at head
      have tail := ih (count - min count limit) (by omega) (items.drop (min count limit))
        (by rw [List.length_drop, size])
      have parts : write items =
          write (items.take (min count limit)) ++ write (items.drop (min count limit)) := by
        rw [← append, split]
      have both := tail.last (items.take (min count limit) ++ ·)
      rw [Option.map_some, split] at both
      rw [parts]
      exact head.bind both

end Parses

/-! ## Maps -/

section Maps

variable {κ ν : Type u} [DecidableEq κ]

def entriesOf (keys : List κ) (map : κ → Option ν) : List (κ × ν) :=
  keys.filterMap fun key => (map key).map fun value => (key, value)

def insertNew (map : κ → Option ν) (item : κ × ν) : κ → Option ν :=
  if (map item.1).isSome then map else Function.update map item.1 (some item.2)

theorem foldl_insertNew_entriesOf {keys : List κ} (distinct : keys.Nodup)
    (map before : κ → Option ν) (fresh : ∀ key ∈ keys, before key = none) (key : κ) :
    (entriesOf keys map).foldl insertNew before key =
      if key ∈ keys then map key else before key := by
  induction keys generalizing before with
  | nil => rw [if_neg not_mem_nil]; rfl
  | cons first keys ih =>
    obtain ⟨absent, distinct⟩ := List.nodup_cons.mp distinct
    obtain ⟨new, fresh⟩ := forall_mem_cons.mp fresh
    rw [entriesOf, List.filterMap_cons]
    cases here : map first with
    | none =>
      refine (ih distinct before fresh).trans ?_
      by_cases same : key = first
      · subst same
        rw [if_neg absent, if_pos List.mem_cons_self, here, new]
      · simp [same]
    | some value =>
      have inserted : insertNew before (first, value) = Function.update before first (some value) :=
        if_neg (by rw [new]; exact Bool.false_ne_true)
      change (entriesOf keys map).foldl insertNew (insertNew before (first, value)) key = _
      rw [inserted, ih distinct]
      · by_cases same : key = first
        · subst same
          rw [if_neg absent, if_pos List.mem_cons_self, here, Function.update_self]
        · simp only [mem_cons, same, false_or, Function.update_of_ne same]
      · intro other mem
        rw [Function.update_of_ne (ne_of_mem_of_not_mem mem absent), fresh other mem]

end Maps

end DogeCash
