import DogeCash.Foundation.Run
import DogeCash.Foundation.Totals
import Mathlib.Algebra.Order.BigOperators.Group.Finset
import Mathlib.Data.Fintype.Option

/-! # The queue of script checks

One master thread adds script checks to a `CCheckQueue` and then joins the workers in `Loop`
until all of them are done. What a thread does while it holds the mutex is one step, and so is
each check of its batch, which it executes without the mutex. A thread that waits on its
condition variable can wake up at any time, so every order of notifications is covered. While
`nTodo` does not wrap around, every step keeps the account of where the checks of the round
are and of their results.
-/

namespace DogeCash

open Function (update update_of_ne update_self)
open List (append_nil length_append length_nil map_nil nil_append not_mem_nil)
open Multiset (coe_add coe_nil)

/-- The state that the mutex of a `CCheckQueue` protects. The last element of the vector
`queue` is the head of the list. -/
structure CCheckQueue (T : Type*) where
  queue : List T := []
  nIdle : ℕ := 0
  /-- The number of threads in `Loop`. -/
  nTotal : ℕ := 0
  fAllOk : Bool := true
  /-- The checks that have not been accounted for, an unsigned number of 32 bits. -/
  nTodo : ℕ := 0
  fQuit : Bool := false
  nBatchSize : ℕ

/-- What a thread leaves the mutex for. -/
inductive Turn (T : Type*) where
  | wait
  | work (nNow : ℕ) (vChecks : List T) (fOk : Bool)
  | exit (fRet : Bool)

namespace CCheckQueue

variable {T : Type*} (queue : CCheckQueue T)

def add (vChecks : List T) : CCheckQueue T :=
  { queue with
    queue := vChecks.reverse ++ queue.queue
    nTodo := (queue.nTodo + vChecks.length) % 2 ^ 32 }

/-- The clean-up of the previous run of the loop, or the first iteration. -/
def cleanUp (nNow : ℕ) (fOk : Bool) : CCheckQueue T :=
  if nNow ≠ 0 then
    { queue with
      fAllOk := queue.fAllOk && fOk
      nTodo := (queue.nTodo + (2 ^ 32 - nNow)) % 2 ^ 32 }
  else { queue with nTotal := queue.nTotal + 1 }

def nNow : ℕ :=
  max 1 (min queue.nBatchSize (queue.queue.length % 2 ^ 32 / (queue.nTotal + queue.nIdle + 1)))

/-- The rest of the critical section, from a test of `queue.empty()` on. -/
def turn (fMaster : Bool) : CCheckQueue T × Turn T :=
  if queue.queue.isEmpty then
    if (fMaster || queue.fQuit) && queue.nTodo == 0 then
      ({ queue with
          nTotal := queue.nTotal - 1
          fAllOk := if fMaster then true else queue.fAllOk },
        .exit queue.fAllOk)
    else ({ queue with nIdle := queue.nIdle + 1 }, .wait)
  else
    ({ queue with queue := queue.queue.drop queue.nNow },
      .work queue.nNow (queue.queue.take queue.nNow) queue.fAllOk)

/-- The end of `cond.wait`. -/
def awake : CCheckQueue T := { queue with nIdle := queue.nIdle - 1 }

/-! ## What a critical section does -/

variable {queue} {batch : ℕ} {fOk : Bool}

theorem cleanUp_queue : (queue.cleanUp batch fOk).queue = queue.queue := by
  unfold cleanUp
  split_ifs
  · rfl
  · rfl

theorem cleanUp_fAllOk (some : batch ≠ 0) :
    (queue.cleanUp batch fOk).fAllOk = (queue.fAllOk && fOk) := by
  rw [cleanUp, if_pos some]

theorem cleanUp_nTodo (some : batch ≠ 0) (enough : batch ≤ queue.nTodo)
    (bounded : queue.nTodo < 2 ^ 32) :
    (queue.cleanUp batch fOk).nTodo = queue.nTodo - batch := by
  simp only [cleanUp, if_pos some]
  omega

theorem nNow_pos : queue.nNow ≠ 0 := by
  unfold nNow
  omega

theorem nNow_le (filled : queue.queue ≠ []) : queue.nNow ≤ queue.queue.length := by
  have some : 0 < queue.queue.length := List.length_pos_iff.mpr filled
  have share : queue.queue.length % 2 ^ 32 / (queue.nTotal + queue.nIdle + 1) ≤
      queue.queue.length := le_trans (Nat.div_le_self _ _) (Nat.mod_le _ _)
  unfold nNow
  omega

theorem turn_of_ne_nil (filled : queue.queue ≠ []) (fMaster : Bool) :
    queue.turn fMaster =
      ({ queue with queue := queue.queue.drop queue.nNow },
        .work queue.nNow (queue.queue.take queue.nNow) queue.fAllOk) :=
  if_neg (mt List.isEmpty_iff.mp filled)

theorem turn_cases (queue : CCheckQueue T) (fMaster : Bool) :
    (queue.queue = [] ∧ queue.nTodo = 0 ∧
      queue.turn fMaster =
        ({ queue with
            nTotal := queue.nTotal - 1
            fAllOk := if fMaster then true else queue.fAllOk },
          .exit queue.fAllOk)) ∨
    (queue.turn fMaster = ({ queue with nIdle := queue.nIdle + 1 }, .wait)) ∨
    queue.queue ≠ [] := by
  by_cases empty : queue.queue = []
  · unfold turn
    rw [if_pos (List.isEmpty_iff.mpr empty)]
    by_cases done : ((fMaster || queue.fQuit) && queue.nTodo == 0) = true
    · rw [if_pos done]
      obtain ⟨-, todo⟩ := Bool.and_eq_true_iff.mp done
      exact Or.inl ⟨empty, beq_iff_eq.mp todo, rfl⟩
    · rw [if_neg done]
      exact Or.inr (Or.inl rfl)
  · exact Or.inr (Or.inr empty)

end CCheckQueue

/-! ## Threads -/

abbrev Entry (T : Type*) := T × Option Bool

/-- Where a thread is when it does not hold the mutex: not in `Loop`, waiting, or with a batch,
of which it has finished some checks. -/
inductive LoopState (T : Type*) where
  | outside
  | waiting
  | executing (nNow : ℕ) (vChecks : List T) (fOk : Bool) (finished : List (Entry T))

/-- A call of `Wait` that returned: the checks that were added for it, the ones that each
thread accounted for, the result, and the queue that it left. -/
structure Round (T W : Type*) where
  added : List T
  accounted : Option W → List (Entry T)
  result : Bool
  left : CCheckQueue T

/-- The queue with its threads, of which `none` is the master, and the history: the checks of
this round and the rounds before. -/
structure CheckSystem (T W : Type*) where
  shared : CCheckQueue T
  threads : Option W → LoopState T
  added : List T
  accounted : Option W → List (Entry T)
  rounds : List (Round T W)

/-- What a thread does: the critical sections of `Add` and `Loop`, and the next check of a
batch with its result. -/
inductive CheckAction (T W : Type*) where
  | add (vChecks : List T)
  | enter (thread : Option W)
  | execute (thread : Option W) (result : Bool)
  | finish (thread : Option W)
  | wake (thread : Option W)

namespace CheckSystem

variable {T W : Type*} [DecidableEq W]

/-- A new queue; no thread is in `Loop`. -/
def initial (nBatchSize : ℕ) : CheckSystem T W where
  shared := { nBatchSize }
  threads _ := .outside
  added := []
  accounted _ := []
  rounds := []

/-- The rest of a critical section of a thread. -/
def resume (system : CheckSystem T W) (thread : Option W) : CheckSystem T W :=
  match system.shared.turn thread.isNone with
  | (shared, .wait) => { system with shared, threads := update system.threads thread .waiting }
  | (shared, .work nNow vChecks fOk) =>
    { system with
      shared
      threads := update system.threads thread (.executing nNow vChecks fOk []) }
  | (shared, .exit fRet) =>
    if thread.isNone then
      { shared
        threads := update system.threads thread .outside
        added := []
        accounted := fun _ => []
        rounds := ⟨system.added, system.accounted, fRet, shared⟩ :: system.rounds }
    else { system with shared, threads := update system.threads thread .outside }

/-- A thread cleans up with the mutex. -/
def release (system : CheckSystem T W) (thread : Option W) (nNow : ℕ) (fOk : Bool)
    (finished : List (Entry T)) : CheckSystem T W :=
  { system with
    shared := system.shared.cleanUp nNow fOk
    threads := update system.threads thread .outside
    accounted := update system.accounted thread (system.accounted thread ++ finished) }

/-- One step of a thread, where the thread can make it. -/
def step : CheckAction T W → CheckSystem T W → Option (CheckSystem T W)
  | .add vChecks, system =>
    match system.threads none with
    | .outside =>
      some { system with
        shared := system.shared.add vChecks
        added := system.added ++ vChecks }
    | _ => none
  | .enter thread, system =>
    match system.threads thread with
    | .outside => some ((system.release thread 0 true []).resume thread)
    | _ => none
  | .execute thread result, system =>
    match system.threads thread with
    | .executing nNow (check :: rest) fOk finished =>
      some { system with
        threads := update system.threads thread
          (.executing nNow rest (fOk && result)
            (finished ++ [(check, if fOk then some result else none)])) }
    | _ => none
  | .finish thread, system =>
    match system.threads thread with
    | .executing nNow [] fOk finished =>
      some ((system.release thread nNow fOk finished).resume thread)
    | _ => none
  | .wake thread, system =>
    match system.threads thread with
    | .waiting =>
      some (resume { system with
        shared := system.shared.awake
        threads := update system.threads thread .outside } thread)
    | _ => none

theorem resume_of_ne_nil {system : CheckSystem T W} {thread : Option W}
    (filled : system.shared.queue ≠ []) :
    system.resume thread =
      { system with
        shared := { system.shared with queue := system.shared.queue.drop system.shared.nNow }
        threads := update system.threads thread (.executing system.shared.nNow
          (system.shared.queue.take system.shared.nNow) system.shared.fAllOk []) } := by
  rw [resume, CCheckQueue.turn_of_ne_nil filled]

theorem release_zero (system : CheckSystem T W) (thread : Option W) :
    system.release thread 0 true [] =
      { system with
        shared := { system.shared with nTotal := system.shared.nTotal + 1 }
        threads := update system.threads thread .outside } := by
  simp only [release, append_nil, Function.update_eq_self]
  rfl

theorem mem_accounted_release {system : CheckSystem T W} {thread other : Option W}
    {nNow : ℕ} {fOk : Bool} {finished : List (Entry T)} {entry : Entry T} :
    entry ∈ (system.release thread nNow fOk finished).accounted other ↔
      entry ∈ system.accounted other ∨ other = thread ∧ entry ∈ finished := by
  by_cases here : other = thread
  · subst here
    simp [release, update_self]
  · simp only [release, update_of_ne here, here, false_and, or_false]

end CheckSystem

/-! ## What holds in every state -/

def LoopState.held {T : Type*} : LoopState T → List T
  | .outside => []
  | .waiting => []
  | .executing _ vChecks _ finished => finished.map Prod.fst ++ vChecks

/-- A batch has checks, and `fOk` tells whether those that are finished returned true; it is
false from the start only if `fAllOk` was. -/
def LoopState.Sound {T : Type*} (fAllOk : Bool) : LoopState T → Prop
  | .outside => True
  | .waiting => True
  | .executing nNow vChecks fOk finished =>
    nNow ≠ 0 ∧ nNow = finished.length + vChecks.length ∧
      (fOk = true → ∀ entry ∈ finished, entry.2 = some true) ∧
        (fOk = false → fAllOk = false ∨ ∃ check, (check, some false) ∈ finished)

variable {T : Type*} {state : LoopState T}

theorem LoopState.Sound.mono {fAllOk fAllOk' : Bool} (sound : state.Sound fAllOk)
    (stays : fAllOk = false → fAllOk' = false) :
    state.Sound fAllOk' := by
  cases state with
  | outside => trivial
  | waiting => trivial
  | executing nNow vChecks fOk finished =>
    obtain ⟨some, size, accepted, rejected⟩ := sound
    exact ⟨some, size, accepted, fun failed => (rejected failed).imp_left stays⟩

theorem LoopState.Sound.of_held_eq_nil {fAllOk : Bool} (sound : state.Sound fAllOk)
    (idle : state.held = []) (fAllOk' : Bool) :
    state.Sound fAllOk' := by
  cases state with
  | outside => trivial
  | waiting => trivial
  | executing nNow vChecks fOk finished =>
    obtain ⟨some, size, -, -⟩ := sound
    obtain ⟨none, rest⟩ := List.append_eq_nil_iff.mp idle
    rw [List.map_eq_nil_iff.mp none, rest] at size
    exact absurd size some

/-- Every check that was added has been accounted for by exactly one thread, the result is
whether all of them were executed and returned true, and the queue is as new. -/
structure Round.Exact {T W : Type*} [Fintype W] (round : Round T W) : Prop where
  taken : (round.added : Multiset T) =
    ∑ thread, ((round.accounted thread).map Prod.fst : Multiset T)
  accepted : round.result = true → ∀ thread, ∀ entry ∈ round.accounted thread, entry.2 = some true
  rejected : round.result = false → ∃ thread check, (check, some false) ∈ round.accounted thread
  queue : round.left.queue = []
  nTodo : round.left.nTodo = 0
  fAllOk : round.left.fAllOk = true

namespace CheckSystem

variable {T W : Type*}

def taken (system : CheckSystem T W) (thread : Option W) : List T :=
  (system.accounted thread).map Prod.fst ++ (system.threads thread).held

theorem taken_release [DecidableEq W] {system : CheckSystem T W} {thread : Option W} {nNow : ℕ}
    {fOk : Bool} {finished : List (Entry T)}
    (here : system.threads thread = .executing nNow [] fOk finished) (other : Option W) :
    (system.release thread nNow fOk finished).taken other = system.taken other := by
  by_cases same : other = thread
  · subst same
    simp [taken, release, update_self, here, LoopState.held]
  · simp only [taken, release, update_of_ne same]

variable [Fintype W]

/-- What holds between the steps: the checks of the round are in the queue or with the threads,
`nTodo` is what is not accounted for, and `fAllOk` tells the results. -/
structure Valid (system : CheckSystem T W) : Prop where
  checks : (system.added : Multiset T) =
    system.shared.queue + ∑ thread, (system.taken thread : Multiset T)
  todo : system.shared.nTodo + ∑ thread, (system.accounted thread).length = system.added.length
  bounded : system.shared.nTodo < 2 ^ 32
  threads : ∀ thread, (system.threads thread).Sound system.shared.fAllOk
  allOk : system.shared.fAllOk = true →
    ∀ thread, ∀ entry ∈ system.accounted thread, entry.2 = some true
  notOk : system.shared.fAllOk = false →
    ∃ thread check, (check, some false) ∈ system.accounted thread
  rounds : ∀ round ∈ system.rounds, round.Exact

namespace Valid

variable {system : CheckSystem T W}

section

variable (valid : system.Valid)
include valid

theorem todo_eq : system.shared.nTodo =
    system.shared.queue.length + ∑ thread, (system.threads thread).held.length := by
  have counted := congrArg Multiset.card valid.checks
  rw [Multiset.card_add, Multiset.card_sum] at counted
  simp only [taken, Multiset.coe_card, length_append, List.length_map,
    Finset.sum_add_distrib] at counted
  have todo := valid.todo
  omega

theorem eq_nil_of_todo (todo : system.shared.nTodo = 0) :
    system.shared.queue = [] ∧ ∀ thread, (system.threads thread).held = [] := by
  have counted := valid.todo_eq
  rw [todo] at counted
  obtain ⟨queue, batches⟩ := Nat.add_eq_zero_iff.mp counted.symm
  refine ⟨List.length_eq_zero_iff.mp queue, fun thread => List.length_eq_zero_iff.mp ?_⟩
  exact Finset.sum_eq_zero_iff.mp batches thread (Finset.mem_univ thread)

theorem held_le_todo (thread : Option W) :
    (system.threads thread).held.length ≤ system.shared.nTodo := by
  have one : (system.threads thread).held.length ≤ ∑ other, (system.threads other).held.length :=
    Finset.single_le_sum (f := fun other => (system.threads other).held.length)
      (fun _ _ => Nat.zero_le _) (Finset.mem_univ thread)
  have counted := valid.todo_eq
  omega

theorem add {vChecks : List T} (fits : system.shared.nTodo + vChecks.length < 2 ^ 32) :
    Valid { system with
      shared := system.shared.add vChecks
      added := system.added ++ vChecks } where
  checks := by
    have reversed : (vChecks.reverse : Multiset T) = vChecks := Multiset.coe_reverse vChecks
    have checks := valid.checks
    simp only [CCheckQueue.add, ← coe_add, checks, reversed]
    change _ = _ + _ + ∑ thread, (system.taken thread : Multiset T)
    rw [add_comm, add_assoc]
  todo := by
    have todo := valid.todo
    simp only [CCheckQueue.add, Nat.mod_eq_of_lt fits, length_append]
    omega
  bounded := Nat.mod_lt _ (by decide)
  threads := valid.threads
  allOk := valid.allOk
  notOk := valid.notOk
  rounds := valid.rounds

end

variable [DecidableEq W]

variable {thread : Option W}

section

variable (valid : system.Valid)
include valid

variable {shared : CCheckQueue T} {nNow : ℕ} {fOk : Bool} {finished : List (Entry T)}

theorem of_held {state : LoopState T} (queue : shared.queue = system.shared.queue)
    (todo : shared.nTodo = system.shared.nTodo) (allOk : shared.fAllOk = system.shared.fAllOk)
    (held : state.held = (system.threads thread).held) (sound : state.Sound system.shared.fAllOk) :
    Valid { system with shared, threads := update system.threads thread state } where
  checks := by
    have same : ∀ other, taken { system with
        shared, threads := update system.threads thread state } other = system.taken other := by
      intro other
      by_cases here : other = thread
      · subst here
        simp only [taken, update_self, held]
      · simp only [taken, update_of_ne here]
    simp only [same, queue]
    exact valid.checks
  todo := by
    simp only [todo]
    exact valid.todo
  bounded := by
    simp only [todo]
    exact valid.bounded
  threads other := by
    simp only [allOk]
    by_cases here : other = thread
    · subst here
      rw [update_self]
      exact sound
    · rw [update_of_ne here]
      exact valid.threads other
  allOk ok := valid.allOk (allOk.symm.trans ok)
  notOk failed := valid.notOk (allOk.symm.trans failed)
  rounds := valid.rounds

theorem execute {check : T} {rest : List T}
    (here : system.threads thread = .executing nNow (check :: rest) fOk finished) (result : Bool) :
    Valid { system with
      threads := update system.threads thread
        (.executing nNow rest (fOk && result)
          (finished ++ [(check, if fOk then some result else none)])) } := by
  have sound := valid.threads thread
  rw [here] at sound
  obtain ⟨some, size, accepted, rejected⟩ := sound
  refine valid.of_held rfl rfl rfl ?_ ⟨some, ?_, ?_, ?_⟩
  · rw [here]
    simp [LoopState.held]
  · rw [size, length_append, List.length_cons, List.length_singleton]
    omega
  · intro ok entry mem
    obtain ⟨rfl, rfl⟩ := Bool.and_eq_true_iff.mp ok
    rcases List.mem_append.mp mem with before | last
    · exact accepted rfl entry before
    · rw [List.mem_singleton.mp last]
      rfl
  · intro failed
    cases fOk with
    | false =>
      refine (rejected rfl).imp_right ?_
      rintro ⟨other, mem⟩
      exact ⟨other, List.mem_append_left _ mem⟩
    | true =>
      subst failed
      exact Or.inr ⟨check, List.mem_append_right _ (List.mem_singleton.mpr rfl)⟩

theorem release (here : system.threads thread = .executing nNow [] fOk finished) :
    (system.release thread nNow fOk finished).Valid := by
  have sound := valid.threads thread
  rw [here] at sound
  obtain ⟨some, size, accepted, rejected⟩ := sound
  rw [length_nil, Nat.add_zero] at size
  have enough : nNow ≤ system.shared.nTodo := by
    have batch := valid.held_le_todo thread
    rwa [here, LoopState.held, append_nil, List.length_map, ← size] at batch
  have cleaned : (system.shared.cleanUp nNow fOk).nTodo = system.shared.nTodo - nNow :=
    CCheckQueue.cleanUp_nTodo some enough valid.bounded
  have allOk : (system.shared.cleanUp nNow fOk).fAllOk = (system.shared.fAllOk && fOk) :=
    CCheckQueue.cleanUp_fAllOk some
  refine ⟨?_, ?_, ?_, ?_, ?_, ?_, valid.rounds⟩
  · simp only [taken_release here]
    change (system.added : Multiset T) = (system.shared.cleanUp nNow fOk).queue + _
    rw [CCheckQueue.cleanUp_queue]
    exact valid.checks
  · change (system.shared.cleanUp nNow fOk).nTodo + _ = system.added.length
    have agree : ∀ other ≠ thread,
        ((system.release thread nNow fOk finished).accounted other).length =
          (system.accounted other).length := by
      intro other ne
      simp only [CheckSystem.release, update_of_ne ne]
    have total := Totals.sum_add_of_agree agree
    have accounted : (system.release thread nNow fOk finished).accounted thread =
        system.accounted thread ++ finished := update_self _ _ _
    have todo := valid.todo
    rw [accounted, length_append] at total
    omega
  · change (system.shared.cleanUp nNow fOk).nTodo < 2 ^ 32
    have bounded := valid.bounded
    omega
  · intro other
    change (update system.threads thread .outside other).Sound
      (system.shared.cleanUp nNow fOk).fAllOk
    rw [allOk]
    by_cases ne : other = thread
    · subst ne
      rw [update_self]
      trivial
    · rw [update_of_ne ne]
      refine (valid.threads other).mono fun failed => ?_
      rw [failed, Bool.false_and]
  · intro ok other entry mem
    obtain ⟨before, here⟩ := Bool.and_eq_true_iff.mp (allOk.symm.trans ok)
    rcases mem_accounted_release.mp mem with old | ⟨-, new⟩
    · exact valid.allOk before other entry old
    · exact accepted here entry new
  · intro failed
    have failedBefore : system.shared.fAllOk = false →
        ∃ other check, (check, Option.some false) ∈
          (system.release thread nNow fOk finished).accounted other := by
      intro before
      obtain ⟨other, check, mem⟩ := valid.notOk before
      exact ⟨other, check, mem_accounted_release.mpr (Or.inl mem)⟩
    rcases Bool.and_eq_false_iff.mp (allOk.symm.trans failed) with before | batch
    · exact failedBefore before
    · rcases rejected batch with before | ⟨check, mem⟩
      · exact failedBefore before
      · exact ⟨thread, check, mem_accounted_release.mpr (Or.inr ⟨rfl, mem⟩)⟩

section

variable (here : system.threads thread = .outside)
include here

theorem work (filled : system.shared.queue ≠ []) :
    Valid { system with
      shared := { system.shared with queue := system.shared.queue.drop system.shared.nNow }
      threads := update system.threads thread (.executing system.shared.nNow
        (system.shared.queue.take system.shared.nNow) system.shared.fAllOk []) } where
  checks := by
    have agree : ∀ other ≠ thread, (taken { system with
        shared := { system.shared with queue := system.shared.queue.drop system.shared.nNow }
        threads := update system.threads thread (.executing system.shared.nNow
          (system.shared.queue.take system.shared.nNow) system.shared.fAllOk []) } other :
            Multiset T) = system.taken other := by
      intro other ne
      simp only [taken, update_of_ne ne]
    have total := Totals.sum_add_of_agree agree
    have batch : (taken { system with
        shared := { system.shared with queue := system.shared.queue.drop system.shared.nNow }
        threads := update system.threads thread (.executing system.shared.nNow
          (system.shared.queue.take system.shared.nNow) system.shared.fAllOk []) } thread :
            Multiset T) =
        system.shared.queue.take system.shared.nNow + system.taken thread := by
      simp only [taken, update_self, here, LoopState.held, map_nil, nil_append, append_nil]
      rw [add_comm, coe_add]
    rw [batch, ← add_assoc] at total
    have split : (system.shared.queue : Multiset T) =
        (system.shared.queue.drop system.shared.nNow : Multiset T) +
          system.shared.queue.take system.shared.nNow := by
      rw [add_comm, coe_add, List.take_append_drop]
    rw [add_right_cancel total, valid.checks, split]
    ac_rfl
  todo := valid.todo
  bounded := valid.bounded
  threads other := by
    by_cases same : other = thread
    · subst same
      simp only [update_self]
      refine ⟨CCheckQueue.nNow_pos, ?_, ?_, Or.inl⟩
      · rw [length_nil, Nat.zero_add, List.length_take,
          Nat.min_eq_left (CCheckQueue.nNow_le filled)]
      · exact nofun
    · simp only [update_of_ne same]
      exact valid.threads other
  allOk := valid.allOk
  notOk := valid.notOk
  rounds := valid.rounds

/-- The master returns from `Wait`. -/
theorem exit (todo : system.shared.nTodo = 0) (queue : shared.queue = []) (todo' : shared.nTodo = 0)
    (allOk : shared.fAllOk = true) :
    Valid {
      shared
      threads := update system.threads thread .outside
      added := []
      accounted := fun _ => []
      rounds := ⟨system.added, system.accounted, system.shared.fAllOk, shared⟩ ::
        system.rounds } := by
  obtain ⟨empty, idle⟩ := valid.eq_nil_of_todo todo
  have idle' : ∀ other, (update system.threads thread .outside other).held = ([] : List T) := by
    intro other
    by_cases same : other = thread
    · subst same
      rw [update_self, LoopState.held]
    · rw [update_of_ne same, idle]
  refine ⟨?_, ?_, ?_, ?_, ?_, ?_, ?_⟩
  · simp [taken, idle', queue, coe_nil]
  · simp [todo']
  · simp only [todo']
    decide
  · intro other
    by_cases same : other = thread
    · subst same
      simp only [update_self]
      trivial
    · simp only [update_of_ne same]
      exact (valid.threads other).of_held_eq_nil (idle other) _
  · exact nofun
  · intro failed
    cases allOk.symm.trans failed
  · intro round mem
    rcases List.mem_cons.mp mem with rfl | before
    · refine ⟨?_, valid.allOk, valid.notOk, queue, todo', allOk⟩
      have checks := valid.checks
      simp only [taken, idle, empty, append_nil, coe_nil, zero_add] at checks
      exact checks
    · exact valid.rounds round before

theorem resume : (system.resume thread).Valid := by
  have held : (system.threads thread).held = [] := by rw [here, LoopState.held]
  rcases system.shared.turn_cases thread.isNone with ⟨empty, done, turn⟩ | turn | filled
  · unfold CheckSystem.resume
    simp only [turn]
    by_cases fMaster : thread.isNone = true
    · rw [if_pos fMaster]
      exact valid.exit here done empty done (if_pos fMaster)
    · rw [if_neg fMaster]
      exact valid.of_held rfl rfl (if_neg fMaster) held.symm trivial
  · unfold CheckSystem.resume
    simp only [turn]
    exact valid.of_held rfl rfl rfl held.symm trivial
  · rw [resume_of_ne_nil filled]
    exact valid.work here filled

end

end

end Valid

/-- An `Add` does not let `nTodo` wrap around: with it there are fewer than 2^32 checks to do. -/
def Fits (system : CheckSystem T W) : CheckAction T W → Prop
  | .add vChecks => system.shared.nTodo + vChecks.length < 2 ^ 32
  | _ => True

instance (system : CheckSystem T W) : ∀ action, Decidable (system.Fits action)
  | .add _ => inferInstanceAs (Decidable (_ < _))
  | .enter _ => isTrue trivial
  | .execute _ _ => isTrue trivial
  | .finish _ => isTrue trivial
  | .wake _ => isTrue trivial

theorem valid_initial (nBatchSize : ℕ) : (initial nBatchSize : CheckSystem T W).Valid where
  checks := by
    simp [initial, taken, LoopState.held, coe_nil]
  todo := by
    simp [initial]
  bounded := Nat.two_pow_pos 32
  threads _ := trivial
  allOk _ _ _ mem := absurd mem not_mem_nil
  notOk failed := by cases failed
  rounds _ mem := absurd mem not_mem_nil

variable [DecidableEq W]

theorem Valid.step {system after : CheckSystem T W} {action : CheckAction T W}
    (valid : system.Valid) (fits : system.Fits action)
    (stepped : CheckSystem.step action system = some after) : after.Valid := by
  cases action with
  | add vChecks =>
    simp only [CheckSystem.step] at stepped
    split at stepped
    · cases stepped
      exact valid.add fits
    · cases stepped
  | enter thread =>
    simp only [CheckSystem.step] at stepped
    split at stepped
    · rename_i here
      cases stepped
      refine Valid.resume ?_ (update_self _ _ _)
      rw [release_zero]
      exact valid.of_held rfl rfl rfl (by rw [here]) trivial
    · cases stepped
  | execute thread result =>
    simp only [CheckSystem.step] at stepped
    split at stepped
    · rename_i here
      cases stepped
      exact valid.execute here result
    · cases stepped
  | finish thread =>
    simp only [CheckSystem.step] at stepped
    split at stepped
    · rename_i here
      cases stepped
      exact (valid.release here).resume (update_self _ _ _)
    · cases stepped
  | wake thread =>
    simp only [CheckSystem.step] at stepped
    split at stepped
    · rename_i here
      cases stepped
      refine Valid.resume ?_ (update_self _ _ _)
      exact valid.of_held rfl rfl rfl (by rw [here]; rfl) trivial
    · cases stepped

end CheckSystem

end DogeCash
