import DogeCash.Foundation.Checked

/-! # Computations that read vectors

A program that reads an element of a vector without asking for the length is defined only
where the element is there. `readAt` is such a read; a computation is `InBounds` when it
meets no read outside a vector. `Refines` compares a computation with one that does the same
and leaves the reads out: they agree as long as the reads are in bounds.
-/

namespace DogeCash

variable {ε α β : Type}

/-- Why a computation ends early: a check fails, or it reads an element that is not
there. -/
inductive Abort (ε : Type) where
  | failed (reason : ε)
  | outOfBounds
  deriving DecidableEq

def readAt (items : List α) (position : ℕ) : Except (Abort ε) α :=
  match items[position]? with
  | some item => .ok item
  | none => .error .outOfBounds

def readFrom (items : List α) (position : ℕ) : Except (Abort ε) (List α) :=
  if position ≤ items.length then .ok (items.drop position) else .error .outOfBounds

def plainly : Except ε α → Except (Abort ε) α
  | .ok value => .ok value
  | .error reason => .error (.failed reason)

/-- No access of the computation is out of bounds. -/
def InBounds (computation : Except (Abort ε) α) : Prop := computation ≠ .error .outOfBounds

/-- A computation without an access out of bounds does what the plain one does. -/
def Refines (reading : Except (Abort ε) α) (plain : Except ε α) : Prop :=
  InBounds reading → reading = plainly plain

theorem plainly_eq_ok {plain : Except ε α} {value : α} :
    plainly plain = .ok value ↔ plain = .ok value := by
  cases plain with
  | error reason => simp [plainly]
  | ok other => simp [plainly]

theorem readAt_eq_ok {items : List α} {position : ℕ} {item : α} :
    (readAt items position : Except (Abort ε) α) = .ok item ↔ items[position]? = some item := by
  unfold readAt
  cases items[position]? with
  | none => simp
  | some other => simp

section Bounds

@[simp] theorem inBounds_ok (value : α) : InBounds (.ok value : Except (Abort ε) α) := nofun

@[simp] theorem inBounds_failed (reason : ε) :
    InBounds (.error (.failed reason) : Except (Abort ε) α) := nofun

@[simp] theorem inBounds_plainly (plain : Except ε α) : InBounds (plainly plain) := by
  cases plain with
  | error reason => exact inBounds_failed reason
  | ok value => exact inBounds_ok value

theorem inBounds_readAt {items : List α} {position : ℕ} :
    InBounds (readAt items position : Except (Abort ε) α) ↔ position < items.length := by
  unfold readAt InBounds
  by_cases inside : position < items.length
  · simp [inside]
  · simp [inside]

theorem inBounds_readFrom {items : List α} {position : ℕ} :
    InBounds (readFrom items position : Except (Abort ε) (List α)) ↔ position ≤ items.length := by
  unfold readFrom InBounds
  by_cases inside : position ≤ items.length
  · simp [inside]
  · simp [inside]

theorem inBounds_bind {first : Except (Abort ε) α} {next : α → Except (Abort ε) β} :
    InBounds (first >>= next) ↔
      InBounds first ∧ ∀ value, first = .ok value → InBounds (next value) := by
  cases first with
  | error reason =>
    refine ⟨fun bounds => ⟨fun outside => ?_, nofun⟩, fun bounds outside => ?_⟩
    · cases outside
      exact bounds rfl
    · cases outside
      exact bounds.1 rfl
  | ok value =>
    refine ⟨fun bounds => ⟨nofun, fun other same => ?_⟩, fun bounds => bounds.2 value rfl⟩
    cases same
    exact bounds

theorem inBounds_requireWhen {condition : Bool} {check : Except (Abort ε) Unit} :
    InBounds (requireWhen condition check) ↔ (condition = true → InBounds check) := by
  unfold requireWhen
  cases condition with
  | false => simp
  | true => simp

end Bounds

namespace Refines

theorem plain (computation : Except ε α) : Refines (plainly computation) computation := fun _ => rfl

theorem ok (value : α) : Refines (.ok value : Except (Abort ε) α) (.ok value) := fun _ => rfl

variable {reading : Except (Abort ε) α} {plain : Except ε α} {next : α → Except (Abort ε) β}
    {items : List α}

theorem eq_ok (refines : Refines reading plain) {value : α} (ok : reading = .ok value) :
    plain = .ok value := by
  have bounds : InBounds reading := by
    rw [ok]
    exact inBounds_ok value
  exact plainly_eq_ok.mp ((refines bounds).symm.trans ok)

theorem bind {readingNext : α → Except (Abort ε) β} {plainNext : α → Except ε β}
    (start : Refines reading plain) (next : ∀ value, Refines (readingNext value) (plainNext value))
    :
    Refines (reading >>= readingNext) (plain >>= plainNext) := by
  intro bounds
  obtain ⟨startBounds, nextBounds⟩ := inBounds_bind.mp bounds
  have same := start startBounds
  cases plain with
  | error reason =>
    rw [same]
    rfl
  | ok value =>
    rw [same]
    exact next value (nextBounds value same)

theorem value {known : α} {plain : Except ε β} (start : Refines reading (.ok known))
    (rest : Refines (next known) plain) :
    Refines (reading >>= next) plain := by
  intro bounds
  obtain ⟨startBounds, nextBounds⟩ := DogeCash.inBounds_bind.mp bounds
  have same := start startBounds
  rw [same]
  exact rest (nextBounds known same)

theorem read {position : ℕ} {plain : Except ε β}
    (refines : ∀ item, items[position]? = some item → Refines (next item) plain) :
    Refines (readAt items position >>= next) plain := by
  intro bounds
  obtain ⟨inside, nextBounds⟩ := inBounds_bind.mp bounds
  obtain ⟨item, found⟩ : ∃ item, items[position]? = some item :=
    ⟨_, List.getElem?_eq_getElem (inBounds_readAt.mp inside)⟩
  have same := (readAt_eq_ok (ε := ε)).mpr found
  rw [same]
  exact refines item found (nextBounds item same)

theorem readFrom {position : ℕ} {next : Except (Abort ε) β} {plain : Except ε β}
    (refines : Refines next plain) :
    Refines (DogeCash.readFrom items position >>= fun _ => next) plain := by
  intro bounds
  obtain ⟨inside, nextBounds⟩ := DogeCash.inBounds_bind.mp bounds
  have read : (DogeCash.readFrom items position : Except (Abort ε) (List α)) =
      .ok (items.drop position) := if_pos (inBounds_readFrom.mp inside)
  rw [read]
  exact refines (nextBounds _ read)

theorem choice {condition : Prop} [Decidable condition] {first second : Except (Abort ε) α}
    {plainFirst plainSecond : Except ε α} (holds : condition → Refines first plainFirst)
    (fails : ¬condition → Refines second plainSecond) :
    Refines (if condition then first else second)
      (if condition then plainFirst else plainSecond) := by
  by_cases decided : condition
  · rw [if_pos decided, if_pos decided]
    exact holds decided
  · rw [if_neg decided, if_neg decided]
    exact fails decided

theorem foldlM {reading : β → α → Except (Abort ε) β} {plain : β → α → Except ε β}
    (step : ∀ state item, Refines (reading state item) (plain state item)) (items : List α)
    (state : β) : Refines (items.foldlM reading state) (items.foldlM plain state) := by
  induction items generalizing state with
  | nil => exact ok state
  | cons item rest ih =>
    exact bind (step state item) ih

theorem inBounds_bind (start : Refines reading plain) :
    InBounds (reading >>= next) ↔
      InBounds reading ∧ ∀ value, plain = .ok value → InBounds (next value) := by
  rw [DogeCash.inBounds_bind]
  refine and_congr_right fun bounds => ?_
  rw [start bounds]
  simp only [plainly_eq_ok]

theorem inBounds_foldlM {reading : β → α → Except (Abort ε) β} {plain : β → α → Except ε β}
    (step : ∀ state item, Refines (reading state item) (plain state item)) {state : β} :
    InBounds (items.foldlM reading state) ↔
      ∀ before item after reached, items = before ++ item :: after →
        before.foldlM plain state = .ok reached → InBounds (reading reached item) := by
  induction items generalizing state with
  | nil =>
    refine ⟨fun _ before item after reached split => ?_, fun _ => inBounds_ok state⟩
    exact absurd split.symm (by simp)
  | cons first rest ih =>
    rw [List.foldlM_cons, inBounds_bind (step state first)]
    constructor
    · intro bounds before item after reached split passed
      cases before with
      | nil =>
        cases split
        cases passed
        exact bounds.1
      | cons other before =>
        cases split
        obtain ⟨next, stepped, later⟩ := foldlM_cons_eq_ok.mp passed
        exact ih.mp (bounds.2 next stepped) before item after reached rfl later
    · intro rounds
      refine ⟨rounds [] first rest state rfl rfl, fun next stepped => ih.mpr ?_⟩
      intro before item after reached split passed
      exact rounds (first :: before) item after reached (by rw [split, List.cons_append])
        (foldlM_cons_eq_ok.mpr ⟨next, stepped, passed⟩)

/-- The same for a loop whose rounds succeed exactly at the items that are accepted after those
before them. -/
theorem inBounds_foldlM_inTurn {reading : β → α → Except (Abort ε) β} {plain : β → α → Except ε β}
    (step : ∀ state item, Refines (reading state item) (plain state item)) {summary : List α → β}
    {Accepted : List α → α → Prop}
    (round : ∀ before item next, plain (summary before) item = .ok next ↔
      Accepted before item ∧ next = summary (before ++ [item])) :
    InBounds (items.foldlM reading (summary [])) ↔
      InTurn (fun before item => InTurn Accepted before → InBounds (reading (summary before) item))
        items := by
  rw [inBounds_foldlM step]
  constructor
  · intro bounds before item after split accepted
    exact bounds before item after _ split ((foldlM_eq_ok_iff_inTurn round).mpr ⟨accepted, rfl⟩)
  · intro bounds before item after reached split passed
    obtain ⟨accepted, rfl⟩ := (foldlM_eq_ok_iff_inTurn round).mp passed
    exact bounds before item after split accepted

end Refines

end DogeCash
