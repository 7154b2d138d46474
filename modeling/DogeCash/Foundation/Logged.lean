import Mathlib.Data.List.Basic

/-! # Computations that keep a log

A computation makes calls on its way to a value or to the reason why it ends early. Its log
holds the calls, also those made before it ends early. `AtMost` bounds their number. `Matches`
compares how two computations end, where each has its own reasons to end early.
-/

namespace DogeCash

variable {ω ω' ε ε' α β : Type}

/-- How a computation ends, and the calls it makes. -/
structure Logged (ω ε α : Type) where
  outcome : Except ε α
  log : List ω

namespace Logged

def fail (reason : ε) : Logged ω ε α := ⟨.error reason, []⟩

def emit (event : ω) : Logged ω ε Unit := ⟨.ok (), [event]⟩

def lift (computation : Except ε α) : Logged ω ε α := ⟨computation, []⟩

def relabel (name : ω → ω') (reason : ε → ε') (computation : Logged ω ε α) : Logged ω' ε' α :=
  ⟨computation.outcome.mapError reason, computation.log.map name⟩

protected def bind (first : Logged ω ε α) (next : α → Logged ω ε β) : Logged ω ε β :=
  match first.outcome with
  | .error reason => ⟨.error reason, first.log⟩
  | .ok value => ⟨(next value).outcome, first.log ++ (next value).log⟩

instance : Monad (Logged ω ε) where
  pure value := ⟨.ok value, []⟩
  bind := Logged.bind

variable {first : Logged ω ε α} {next : α → Logged ω ε β}

variable {value : α} {reason : ε}

theorem bind_of_ok (ok : first.outcome = .ok value) :
    first >>= next = ⟨(next value).outcome, first.log ++ (next value).log⟩ := by
  show Logged.bind first next = _
  unfold Logged.bind
  rw [ok]

theorem bind_of_error (fails : first.outcome = .error reason) :
    first >>= next = ⟨.error reason, first.log⟩ := by
  show Logged.bind first next = _
  unfold Logged.bind
  rw [fails]

@[simp] theorem fail_bind (reason : ε) : (fail reason >>= next : Logged ω ε β) = fail reason := rfl

instance : LawfulMonad (Logged ω ε) :=
  LawfulMonad.mk' (Logged ω ε)
    (fun computation => by
      show Logged.bind computation _ = computation
      rcases computation with ⟨reason | value, log⟩
      · rfl
      · exact congrArg (Logged.mk _) (List.append_nil log))
    (fun _ _ => rfl)
    (fun computation next last => by
      cases ended : computation.outcome with
      | error reason =>
        rw [bind_of_error ended, bind_of_error ended]
        rfl
      | ok value =>
        rw [bind_of_ok ended, bind_of_ok ended]
        cases later : (next value).outcome with
        | error reason =>
          rw [bind_of_error later, bind_of_error rfl]
        | ok result =>
          rw [bind_of_ok later, bind_of_ok rfl, List.append_assoc])

@[simp] theorem outcome_pure (value : α) : (pure value : Logged ω ε α).outcome = .ok value := rfl

@[simp] theorem outcome_fail (reason : ε) :
    (fail reason : Logged ω ε α).outcome = .error reason := rfl

@[simp] theorem outcome_emit (event : ω) : (emit event : Logged ω ε Unit).outcome = .ok () := rfl

@[simp] theorem outcome_lift (computation : Except ε α) :
    (lift computation : Logged ω ε α).outcome = computation := rfl

@[simp] theorem log_pure (value : α) : (pure value : Logged ω ε α).log = [] := rfl

@[simp] theorem log_fail (reason : ε) : (fail reason : Logged ω ε α).log = [] := rfl

@[simp] theorem log_lift (computation : Except ε α) :
    (lift computation : Logged ω ε α).log = [] := rfl

@[simp] theorem log_relabel (name : ω → ω') (reason : ε → ε') (computation : Logged ω ε α) :
    (computation.relabel name reason).log = computation.log.map name := rfl

@[simp] theorem outcome_bind :
    (first >>= next).outcome = first.outcome >>= fun value => (next value).outcome := by
  cases ended : first.outcome with
  | error reason =>
    rw [bind_of_error ended]
    rfl
  | ok value =>
    rw [bind_of_ok ended]
    rfl

theorem log_bind_of_ok (ok : first.outcome = .ok value) :
    (first >>= next).log = first.log ++ (next value).log := by
  rw [bind_of_ok ok]

theorem log_bind_of_error (fails : first.outcome = .error reason) :
    (first >>= next).log = first.log := by
  rw [bind_of_error fails]

@[simp] theorem log_bind_eq_nil :
    (first >>= next).log = [] ↔
      first.log = [] ∧ ∀ value, first.outcome = .ok value → (next value).log = [] := by
  cases ended : first.outcome with
  | error reason =>
    rw [log_bind_of_error ended]
    simp only [reduceCtorEq, false_implies, implies_true, and_true]
  | ok value =>
    rw [log_bind_of_ok ended, List.append_eq_nil_iff]
    simp only [Except.ok.injEq, forall_eq']

@[simp] theorem log_map (f : α → β) : (f <$> first).log = first.log := by
  rw [← bind_pure_comp]
  cases ended : first.outcome with
  | error reason => exact log_bind_of_error ended
  | ok value => rw [log_bind_of_ok ended, log_pure, List.append_nil]

def select (kind : ω → Bool) (computation : Logged ω ε α) : Logged ω ε α :=
  ⟨computation.outcome, computation.log.filter kind⟩

theorem select_bind (kind : ω → Bool) :
    (first >>= next).select kind = first.select kind >>= fun value => (next value).select kind := by
  cases ended : first.outcome with
  | error reason =>
    have selected : (first.select kind).outcome = .error reason := ended
    rw [bind_of_error ended, bind_of_error selected]
    rfl
  | ok value =>
    have selected : (first.select kind).outcome = .ok value := ended
    rw [bind_of_ok ended, bind_of_ok selected]
    exact congrArg (Logged.mk _) (List.filter_append ..)

/-! ## The number of calls -/

def AtMost (bound : ℕ) (computation : Logged ω ε α) : Prop := computation.log.length ≤ bound

namespace AtMost

theorem pure (bound : ℕ) (value : α) : AtMost bound (Pure.pure value : Logged ω ε α) :=
  Nat.zero_le bound

theorem fail (bound : ℕ) (reason : ε) : AtMost bound (Logged.fail reason : Logged ω ε α) :=
  Nat.zero_le bound

theorem emit (event : ω) : AtMost 1 (Logged.emit event : Logged ω ε Unit) := Nat.le_refl 1

theorem of_silent (silent : first.log = []) (bound : ℕ) : AtMost bound first := by
  rw [AtMost, silent]
  exact Nat.zero_le bound

variable {bound : ℕ}

theorem relabel {name : ω → ω'} {reason : ε → ε'} (atMost : AtMost bound first) :
    AtMost bound (first.relabel name reason) := by
  rw [AtMost, log_relabel, List.length_map]
  exact atMost

theorem mono {fewer bound : ℕ} (atMost : AtMost fewer first) (le : fewer ≤ bound) :
    AtMost bound first :=
  Nat.le_trans atMost le

theorem bind {bound rest : ℕ} (start : AtMost bound first)
    (later : ∀ value, first.outcome = .ok value → AtMost rest (next value)) :
    AtMost (bound + rest) (first >>= next) := by
  unfold AtMost
  cases ended : first.outcome with
  | error reason =>
    rw [log_bind_of_error ended]
    exact Nat.le_add_right_of_le start
  | ok value =>
    rw [log_bind_of_ok ended, List.length_append]
    exact Nat.add_le_add start (later value ended)

theorem bind_silent {rest : ℕ} (start : first.log = [])
    (later : ∀ value, first.outcome = .ok value → AtMost rest (next value)) :
    AtMost rest (first >>= next) := by
  rw [← Nat.zero_add rest]
  exact bind (of_silent start 0) later

theorem silent_bind (start : AtMost bound first)
    (later : ∀ value, first.outcome = .ok value → (next value).log = []) :
    AtMost bound (first >>= next) := by
  exact bind start fun value ok => of_silent (later value ok) 0

theorem choice {condition : Prop} [Decidable condition] {other : Logged ω ε α}
    (holds : condition → AtMost bound first) (fails : ¬condition → AtMost bound other) :
    AtMost bound (if condition then first else other) := by
  by_cases decided : condition
  · rw [if_pos decided]
    exact holds decided
  · rw [if_neg decided]
    exact fails decided

end AtMost

end Logged

/-! ## How two computations end -/

variable {reason : ε → ε'}

theorem mapError_bind {first : Except ε α} {next : α → Except ε β} {later : α → Except ε' β}
    (same : ∀ value, first = .ok value → later value = (next value).mapError reason) :
    (first.mapError reason >>= later) = (first >>= next).mapError reason := by
  cases first with
  | error other => rfl
  | ok value => exact same value rfl

theorem mapError_eq_ok {computation : Except ε α} {value : α} :
    computation.mapError reason = .ok value ↔ computation = .ok value := by
  cases computation with
  | error other => simp only [Except.mapError, reduceCtorEq]
  | ok other => simp only [Except.mapError, Except.ok.injEq]

/-- Both computations return the same value, or end early for related reasons. -/
inductive Matches (related : ε → ε' → Prop) : Except ε α → Except ε' α → Prop where
  | ok (value : α) : Matches related (.ok value) (.ok value)
  | error {reason : ε} {other : ε'} (same : related reason other) :
      Matches related (.error reason) (.error other)

namespace Matches

variable {related : ε → ε' → Prop} {first : Except ε α} {second : Except ε' α}

@[simp] theorem ok_ok {value other : α} :
    Matches related (.ok value) (.ok other) ↔ value = other := by
  constructor
  · intro matched
    cases matched
    rfl
  · rintro rfl
    exact .ok value

@[simp] theorem error_error {reason : ε} {other : ε'} :
    Matches related (.error reason : Except ε α) (.error other) ↔ related reason other :=
  ⟨fun matched => (by cases matched; assumption), .error⟩

theorem bind {firstNext : α → Except ε β} {secondNext : α → Except ε' β}
    (start : Matches related first second)
    (next : ∀ value, second = .ok value → Matches related (firstNext value) (secondNext value)) :
    Matches related (first >>= firstNext) (second >>= secondNext) := by
  cases start with
  | ok value => exact next value rfl
  | error same => exact .error same

theorem ok_iff (matched : Matches related first second) {value : α} :
    first = .ok value ↔ second = .ok value := by
  cases matched with
  | ok other => simp only [Except.ok.injEq]
  | error same => simp only [reduceCtorEq]

theorem exists_related (matched : Matches related first second) {reason : ε}
    (fails : first = .error reason) : ∃ other, second = .error other ∧ related reason other := by
  cases matched with
  | ok value => cases fails
  | @error _ other same =>
    cases fails
    exact ⟨other, rfl, same⟩

end Matches

end DogeCash
