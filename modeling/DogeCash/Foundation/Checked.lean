import Mathlib.Data.List.Basic
import Mathlib.Data.List.Induction

/-! # Checks that end a computation

A validation function is a sequence of checks, each of which ends it with a reason
when it fails. The lemmas say what is known once such a sequence has succeeded.
-/

namespace DogeCash

variable {ε α β : Type}

/-- A check: it goes on if the condition holds and ends with the reason otherwise. -/
def require (condition : Bool) (reason : ε) : Except ε Unit :=
  if condition then .ok () else .error reason

/-- A check that is made under a condition. -/
def requireWhen (condition : Bool) (check : Except ε Unit) : Except ε Unit :=
  if condition then check else .ok ()

@[simp] theorem require_true (reason : ε) : require true reason = .ok () := rfl

@[simp] theorem require_false (reason : ε) : require false reason = .error reason := rfl

variable {condition : Bool} {reason : ε} {value : Unit} {step : β → α → Except ε β}
    {state final : β} {items : List α}

theorem require_eq_ok : require condition reason = .ok value ↔ condition = true := by
  cases condition with
  | false => simp
  | true => simp

theorem requireWhen_eq_ok {check : Except ε Unit} :
    requireWhen condition check = .ok value ↔ (condition = true → check = .ok ()) := by
  unfold requireWhen
  cases condition with
  | false => simp
  | true => simp

variable {first : Except ε α} {next : α → Except ε β} {result : β} {last : α}

/-- A computation succeeds if its first part does and the rest does on the value. -/
theorem bind_eq_ok :
    first >>= next = .ok result ↔ ∃ value, first = .ok value ∧ next value = .ok result := by
  constructor
  · intro ok
    cases first with
    | error reason => cases ok
    | ok value => exact ⟨value, rfl, ok⟩
  · rintro ⟨value, rfl, ok⟩
    exact ok

theorem bind_eq_error :
    first >>= next = .error reason ↔
      first = .error reason ∨ ∃ value, first = .ok value ∧ next value = .error reason := by
  cases first with
  | error other =>
    constructor
    · intro fails
      cases fails
      exact .inl rfl
    · rintro (fails | ⟨value, same, -⟩)
      · cases fails
        rfl
      · cases same
  | ok value =>
    constructor
    · exact fun fails => .inr ⟨value, rfl, fails⟩
    · rintro (fails | ⟨other, same, fails⟩)
      · cases fails
      · cases same
        exact fails

theorem require_bind_eq_ok {next : Unit → Except ε β} :
    require condition reason >>= next = .ok result ↔ condition = true ∧ next () = .ok result := by
  rw [bind_eq_ok]
  constructor
  · rintro ⟨value, passed, ok⟩
    exact ⟨require_eq_ok.mp passed, ok⟩
  · rintro ⟨passed, ok⟩
    exact ⟨(), require_eq_ok.mpr passed, ok⟩

theorem exists_eq_ok_of_isOk {computation : Except ε α} (ok : computation.isOk = true) :
    ∃ value, computation = .ok value := by
  cases computation with
  | error reason => cases ok
  | ok value => exact ⟨value, rfl⟩

theorem foldlM_cons_eq_ok {item : α} {rest : List α} :
    (item :: rest).foldlM step state = .ok final ↔
      ∃ next, step state item = .ok next ∧ rest.foldlM step next = .ok final := by
  rw [List.foldlM_cons, bind_eq_ok]

theorem foldlM_concat_eq_ok :
    (items ++ [last]).foldlM step state = .ok final ↔
      ∃ next, items.foldlM step state = .ok next ∧ step next last = .ok final := by
  rw [List.foldlM_append, bind_eq_ok]
  simp only [foldlM_cons_eq_ok, List.foldlM_nil, pure, Except.pure, Except.ok.injEq,
    exists_eq_right]

/-- A loop of checks is one check of all items. -/
theorem foldlM_require (condition : α → Bool) (reason : ε) (items : List α) :
    items.foldlM (fun (_ : Unit) item => require (condition item) reason) () =
      require (items.all condition) reason := by
  induction items with
  | nil => rfl
  | cons item rest ih =>
    rw [List.foldlM_cons, List.all_cons]
    cases condition item with
    | false => rfl
    | true => exact ih

/-- What every round keeps holds after a loop that succeeds. -/
theorem foldlM_invariant (invariant : β → Prop)
    (keeps : ∀ item ∈ items, ∀ before after, invariant before → step before item = .ok after →
      invariant after) (ok : items.foldlM step state = .ok final) (start : invariant state) :
    invariant final := by
  induction items generalizing state with
  | nil =>
    cases ok
    exact start
  | cons item rest ih =>
    obtain ⟨next, stepped, later⟩ := foldlM_cons_eq_ok.mp ok
    exact ih (fun other mem => keeps other (List.mem_cons_of_mem _ mem)) later
      (keeps item List.mem_cons_self state next start stepped)

theorem foldlM_rounds (ok : items.foldlM step state = .ok final) :
    ∀ item ∈ items, ∃ before after, step before item = .ok after := by
  induction items generalizing state with
  | nil => exact nofun
  | cons item rest ih =>
    obtain ⟨next, stepped, later⟩ := foldlM_cons_eq_ok.mp ok
    exact List.forall_mem_cons.mpr ⟨⟨state, next, stepped⟩, ih later⟩

/-- A loop succeeds if every round does wherever the earlier ones lead. -/
theorem foldlM_performed (invariant : List α → β → Prop) (seen : List α) {state : β}
    (performs : ∀ before item after state, items = before ++ item :: after →
      invariant (seen ++ before) state →
      ∃ next, step state item = .ok next ∧ invariant (seen ++ before ++ [item]) next)
    (start : invariant seen state) :
    ∃ final, items.foldlM step state = .ok final ∧ invariant (seen ++ items) final := by
  induction items generalizing seen state with
  | nil => exact ⟨state, rfl, by rw [List.append_nil]; exact start⟩
  | cons item rest ih =>
    rw [List.append_cons]
    obtain ⟨next, stepped, kept⟩ := performs [] item rest state rfl
      (by rw [List.append_nil]; exact start)
    rw [List.append_nil] at kept
    have later : ∀ before other after state, rest = before ++ other :: after →
        invariant (seen ++ [item] ++ before) state →
        ∃ next, step state other = .ok next ∧
          invariant (seen ++ [item] ++ before ++ [other]) next := by
      intro before other after state split held
      rw [List.append_assoc seen] at held ⊢
      exact performs (item :: before) other after state (by rw [split]; rfl) held
    obtain ⟨final, loops, kept⟩ := ih (seen ++ [item]) later kept
    exact ⟨final, foldlM_cons_eq_ok.mpr ⟨next, stepped, loops⟩, kept⟩

theorem foldlM_appends {γ : Type} (out : β → List γ) (added : α → List γ)
    (round : ∀ item before after, step before item = .ok after →
      out after = out before ++ added item) (ok : items.foldlM step state = .ok final) :
    out final = out state ++ items.flatMap added := by
  induction items generalizing state with
  | nil =>
    cases ok
    exact (List.append_nil _).symm
  | cons item rest ih =>
    obtain ⟨next, stepped, later⟩ := foldlM_cons_eq_ok.mp ok
    rw [ih later, round item state next stepped, List.flatMap_cons, List.append_assoc]

theorem foldlM_nodup {κ : Type} (keys : β → List κ) (added : α → List κ)
    (round : ∀ item before after, step before item = .ok after → (keys before).Nodup →
      (keys after).Nodup ∧ keys after = (added item).reverse ++ keys before)
    (ok : items.foldlM step state = .ok final) (distinct : (keys state).Nodup) :
    (keys final).Nodup ∧ keys final = (items.flatMap added).reverse ++ keys state := by
  induction items generalizing state with
  | nil =>
    cases ok
    exact ⟨distinct, rfl⟩
  | cons item rest ih =>
    obtain ⟨next, stepped, later⟩ := foldlM_cons_eq_ok.mp ok
    obtain ⟨nodup, here⟩ := round item state next stepped distinct
    obtain ⟨last, collected⟩ := ih later nodup
    refine ⟨last, ?_⟩
    rw [collected, here, List.flatMap_cons, List.reverse_append, List.append_assoc]

/-- Every item has a property relative to the items before it. -/
def InTurn (property : List α → α → Prop) (items : List α) : Prop :=
  ∀ before item after, items = before ++ item :: after → property before item

@[simp] theorem inTurn_nil (property : List α → α → Prop) : InTurn property [] := by
  intro before item after split
  exact absurd split.symm (by simp)

theorem inTurn_concat {property : List α → α → Prop} :
    InTurn property (items ++ [last]) ↔ InTurn property items ∧ property items last := by
  constructor
  · intro each
    refine ⟨fun before item after split => ?_, each items last [] rfl⟩
    apply each before item (after ++ [last])
    rw [split, List.append_assoc, List.cons_append]
  · intro ⟨each, there⟩ before item after split
    rcases List.eq_nil_or_concat after with rfl | ⟨after, other, rfl⟩
    · obtain ⟨rfl, same⟩ := List.append_inj' split rfl
      cases same
      exact there
    · rw [List.concat_eq_append, ← List.cons_append, ← List.append_assoc] at split
      obtain ⟨rfl, -⟩ := List.append_inj' split rfl
      exact each before item after rfl

theorem foldlM_eq_ok_iff_inTurn {summary : List α → β} {Accepted : List α → α → Prop}
    (round : ∀ before item next, step (summary before) item = .ok next ↔
      Accepted before item ∧ next = summary (before ++ [item])) {final : β} :
    items.foldlM step (summary []) = .ok final ↔ InTurn Accepted items ∧ final = summary items := by
  induction items using List.reverseRecOn generalizing final with
  | nil =>
    simp only [List.foldlM_nil, pure, Except.pure, Except.ok.injEq, inTurn_nil, true_and]
    exact eq_comm
  | append_singleton items last ih =>
    rw [foldlM_concat_eq_ok, inTurn_concat]
    constructor
    · rintro ⟨reached, looped, stepped⟩
      obtain ⟨accepted, rfl⟩ := ih.mp looped
      obtain ⟨there, same⟩ := (round items last final).mp stepped
      exact ⟨⟨accepted, there⟩, same⟩
    · rintro ⟨⟨accepted, there⟩, same⟩
      exact ⟨summary items, ih.mpr ⟨accepted, rfl⟩, (round items last final).mpr ⟨there, same⟩⟩

theorem foldlM_unit_eq_ok {check : α → Except ε Unit}
    (ok : items.foldlM (fun _ item => check item) () = .ok value) :
    ∀ item ∈ items, check item = .ok () := by
  intro item mem
  obtain ⟨_, _, passed⟩ := foldlM_rounds ok item mem
  exact passed

theorem foldlM_collects {step : List β → α → Except ε (List β)} (added : α → β → Prop)
    {state final : List β} (round : ∀ item ∈ items, ∀ before after, step before item = .ok after →
      before ⊆ after ∧ ∀ value, added item value → value ∈ after)
    (ok : items.foldlM step state = .ok final) :
    state ⊆ final ∧ ∀ item ∈ items, ∀ value, added item value → value ∈ final := by
  induction items generalizing state with
  | nil =>
    cases ok
    exact ⟨List.Subset.refl _, nofun⟩
  | cons item rest ih =>
    obtain ⟨next, stepped, later⟩ := foldlM_cons_eq_ok.mp ok
    obtain ⟨grows, here⟩ := round item List.mem_cons_self state next stepped
    obtain ⟨keeps, others⟩ := ih (fun other mem => round other (List.mem_cons_of_mem _ mem)) later
    refine ⟨List.Subset.trans grows keeps, List.forall_mem_cons.mpr ⟨?_, others⟩⟩
    exact fun value adds => keeps (here value adds)

end DogeCash
