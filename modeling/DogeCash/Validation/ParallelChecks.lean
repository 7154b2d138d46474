import DogeCash.Validation.CheckQueue
import Mathlib.Data.Fintype.BigOperators

/-! # Parallel script checks are exact

A call of `Wait` returns the conjunction of the checks that were added for it, each of which
was taken by exactly one thread. This rests on `nTodo`, which counts modulo 2^32: with as many
checks in the batches of the workers the master takes the round for done.
-/

namespace DogeCash.CheckSystem

open List (length_append length_nil length_replicate replicate)
open Function (update_of_ne update_self)

section Exact

variable {T W : Type*} [Fintype W] [DecidableEq W]

/-- **Parallel checks.** In a run in which no `Add` lets `nTodo` wrap around, every call of
`Wait` that returned has accounted for each check exactly once, returned true only if all were
executed and returned true and false only if one of them returned false, and left the queue as
new. -/
theorem wait_exact {nBatchSize : ℕ} {actions : List (CheckAction T W)} {final : CheckSystem T W}
    (fits : RunMeets CheckSystem.step Fits actions (initial nBatchSize))
    (runs : run CheckSystem.step actions (initial nBatchSize) = some final) :
    ∀ round ∈ final.rounds, round.Exact := by
  have valid : final.Valid :=
    fits.invariant Valid (fun _ _ _ fits valid stepped => valid.step fits stepped) runs
      (valid_initial nBatchSize)
  exact valid.rounds

end Exact

/-! ## Two rounds -/

/-- Two workers and the master check three scripts, then the master checks two, of which the
first one fails. -/
def sampleActions : List (CheckAction ℕ (Fin 2)) :=
  [.enter (some 0), .add [1, 2], .add [3], .wake (some 0), .enter none, .enter (some 1),
    .execute (some 0) true, .finish (some 0), .execute none true, .finish none,
    .execute (some 1) true, .finish (some 1), .wake none,
    .add [4, 5], .enter none, .execute none false, .finish none, .execute none true, .finish none]

theorem wait_exact_sample : ∃ final, run CheckSystem.step sampleActions (initial 2) = some final ∧
    final.rounds.map Round.result = [false, true] ∧ ∀ round ∈ final.rounds, round.Exact := by
  have results : (run CheckSystem.step sampleActions (initial 2)).map
      (fun final => final.rounds.map Round.result) = some [false, true] := by decide
  obtain ⟨final, runs, same⟩ := Option.map_eq_some_iff.mp results
  exact ⟨final, runs, same, wait_exact (by decide) runs⟩

/-! ## A round that is too large -/

/-- A call of `Wait` returned true while `missing` checks had not been accounted for. -/
def Missed (missing : ℕ) (system : CheckSystem Unit (Fin 3)) : Prop :=
  ∃ round ∈ system.rounds, round.result = true ∧
    (∑ thread, (round.accounted thread).length) + missing = round.added.length

/-- Some workers hold a batch, and none has accounted for a check. -/
structure Crowded (system : CheckSystem Unit (Fin 3)) (entered size added : ℕ) : Prop where
  shared : system.shared =
    { queue := replicate size (), nTotal := entered, nTodo := added % 2 ^ 32,
      nBatchSize := 2 ^ 32 - 1 }
  master : system.threads none = .outside
  workers : ∀ worker : Fin 3, entered ≤ worker → system.threads (some worker) = .outside
  added : system.added.length = added
  accounted : system.accounted = fun _ => []

/-- The master works alone on what is left in the queue, `missing` checks being with others. -/
structure Draining (missing : ℕ) (system : CheckSystem Unit (Fin 3)) (nNow left size : ℕ) :
    Prop where
  shared : ∃ nTotal, system.shared =
    { queue := replicate size (), nTotal, nTodo := (nNow + size) % 2 ^ 32,
      nBatchSize := 2 ^ 32 - 1 }
  master : ∃ finished, system.threads none =
    .executing nNow (replicate left ()) true finished ∧ finished.length + left = nNow
  workers : ∀ worker, system.accounted (some worker) = []
  added : (system.accounted none).length + nNow + size + missing = system.added.length
  bounds : nNow ≠ 0 ∧ nNow < 2 ^ 32

section Overflow

variable {system : CheckSystem Unit (Fin 3)} {entered size added missing : ℕ}

variable {property : CheckSystem Unit (Fin 3) → Prop} {nNow : ℕ}

theorem Crowded.add (crowded : Crowded system entered size added) (count : ℕ)
    (reaches : ∀ next, Crowded next entered (size + count) (added + count) →
      Reaches CheckSystem.step property next) : Reaches CheckSystem.step property system := by
  have stepped : CheckSystem.step (.add (replicate count ())) system =
      some { system with
        shared := system.shared.add (replicate count ())
        added := system.added ++ replicate count () } := by
    simp only [CheckSystem.step, crowded.master]
  refine Reaches.of_step stepped (reaches _ ⟨?_, crowded.master, crowded.workers, ?_,
    crowded.accounted⟩)
  · simp [crowded.shared, CCheckQueue.add, length_replicate, Nat.add_comm count size]
  · simp [crowded.added, length_replicate]

theorem Crowded.enter (crowded : Crowded system entered size added) (worker : Fin 3)
    (turn : worker.val = entered) {batch : ℕ}
    (share : max 1 (min (2 ^ 32 - 1) (size % 2 ^ 32 / (entered + 1 + 0 + 1))) = batch)
    (filled : size ≠ 0) (reaches : ∀ next, Crowded next (entered + 1) (size - batch) added →
      Reaches CheckSystem.step property next) : Reaches CheckSystem.step property system := by
  have stepped : CheckSystem.step (.enter (some worker)) system =
      some ((system.release (some worker) 0 true []).resume (some worker)) := by
    simp only [CheckSystem.step, crowded.workers worker turn.ge]
  rw [release_zero, crowded.shared, resume_of_ne_nil (by simpa using filled)] at stepped
  refine Reaches.of_step stepped (reaches _ ⟨?_, ?_, ?_, crowded.added, crowded.accounted⟩)
  · simp only [CCheckQueue.nNow, length_replicate, share, List.drop_replicate]
  · simp only [update_of_ne (Option.some_ne_none worker).symm, crowded.master]
  · intro other later
    have ne : some other ≠ some worker := by
      rintro ⟨⟩
      omega
    simp only [update_of_ne ne, crowded.workers other (by omega)]

theorem draining_resume {nTotal : ℕ}
    (shared : system.shared =
      { queue := replicate size (), nTotal, nTodo := size % 2 ^ 32, nBatchSize := 2 ^ 32 - 1 })
    (workers : ∀ worker, system.accounted (some worker) = [])
    (added : (system.accounted none).length + size + missing = system.added.length)
    (filled : size ≠ 0) :
    ∃ batch, 0 < batch ∧ batch ≤ size ∧
      Draining missing (system.resume none) batch batch (size - batch) := by
  have checks : system.shared.queue ≠ [] := by
    rw [shared]
    simpa using filled
  have positive : system.shared.nNow ≠ 0 := CCheckQueue.nNow_pos
  have length : system.shared.queue.length = size := by rw [shared, length_replicate]
  have most : system.shared.nNow ≤ size := length ▸ CCheckQueue.nNow_le checks
  have small : system.shared.nNow < 2 ^ 32 := by
    simp only [shared, CCheckQueue.nNow]
    omega
  have resumed := @resume_of_ne_nil _ _ _ _ none checks
  generalize system.shared.nNow = batch at *
  refine ⟨batch, by omega, most, ?_⟩
  rw [resumed]
  refine ⟨⟨nTotal, ?_⟩, ⟨[], ?_, ?_⟩, workers, ?_, positive, small⟩
  · simp [shared, Nat.add_sub_of_le most]
  · simp [update_self, shared, Nat.min_eq_left most]
  · rw [length_nil, Nat.zero_add]
  · simp only
    omega

theorem Crowded.drain (crowded : Crowded system entered size added) (filled : size ≠ 0)
    (total : size + missing = added) (wraps : missing % 2 ^ 32 = 0) :
    ∃ batch next, 0 < batch ∧ batch ≤ size ∧
      CheckSystem.step (.enter none) system = some next ∧
        Draining missing next batch batch (size - batch) := by
  have stepped : CheckSystem.step (.enter none) system =
      some ((system.release none 0 true []).resume none) := by
    simp only [CheckSystem.step, crowded.master]
  have accounted : ∀ thread, (system.release none 0 true []).accounted thread = [] := by
    intro thread
    rw [release_zero]
    simp only [crowded.accounted]
  have shared : (system.release none 0 true []).shared =
      { queue := replicate size (), nTotal := entered + 1, nTodo := size % 2 ^ 32,
        nBatchSize := 2 ^ 32 - 1 } := by
    have todo : added % 2 ^ 32 = size % 2 ^ 32 := by omega
    rw [release_zero]
    simp only [crowded.shared, todo]
  have added : ((system.release none 0 true []).accounted none).length + size + missing =
      system.added.length := by
    rw [accounted, crowded.added, length_nil, Nat.zero_add, total]
  obtain ⟨batch, some, most, draining⟩ :=
    draining_resume shared (fun worker => accounted _) added filled
  exact ⟨batch, _, some, most, stepped, draining⟩

theorem Draining.execute {nNow left : ℕ} (draining : Draining missing system nNow (left + 1) size) :
    ∃ next, CheckSystem.step (.execute none true) system = some next ∧
      Draining missing next nNow left size := by
  obtain ⟨finished, here, total⟩ := draining.master
  refine ⟨{ system with
    threads := Function.update system.threads none
      (.executing nNow (replicate left ()) true (finished ++ [((), some true)])) }, ?_, ?_⟩
  · simp only [CheckSystem.step, here, List.replicate_succ]
    rfl
  · refine ⟨draining.shared, ⟨finished ++ [((), some true)], ?_, ?_⟩,
      draining.workers, draining.added, draining.bounds⟩
    · simp only [update_self]
    · rw [length_append, List.length_singleton]
      omega

theorem Draining.release (draining : Draining missing system nNow 0 size) :
    ∃ (cleaned : CheckSystem Unit (Fin 3)) (nTotal : ℕ),
      CheckSystem.step (.finish none) system = some (cleaned.resume none) ∧
      cleaned.shared =
        { queue := replicate size (), nTotal, nTodo := size % 2 ^ 32, nBatchSize := 2 ^ 32 - 1 } ∧
      (∀ worker, cleaned.accounted (some worker) = []) ∧
        (cleaned.accounted none).length + size + missing = cleaned.added.length := by
  obtain ⟨finished, here, total⟩ := draining.master
  obtain ⟨nTotal, shared⟩ := draining.shared
  obtain ⟨some, small⟩ := draining.bounds
  refine ⟨system.release none nNow true finished, nTotal, ?_, ?_, ?_, ?_⟩
  · simp only [CheckSystem.step, here, List.replicate_zero]
  · have todo : ((nNow + size) % 2 ^ 32 + (2 ^ 32 - nNow)) % 2 ^ 32 = size % 2 ^ 32 := by omega
    simp only [CheckSystem.release, CCheckQueue.cleanUp, shared, ne_eq, some, not_false_eq_true,
      ↓reduceIte, Bool.and_self, todo]
  · intro worker
    simp only [CheckSystem.release, update_of_ne (Option.some_ne_none worker), draining.workers]
  · have before := draining.added
    simp only [CheckSystem.release, update_self, length_append]
    omega

theorem Draining.finish (draining : Draining missing system nNow 0 size) (filled : size ≠ 0) :
    ∃ batch next, 0 < batch ∧ batch ≤ size ∧
      CheckSystem.step (.finish none) system = some next ∧
        Draining missing next batch batch (size - batch) := by
  obtain ⟨cleaned, nTotal, stepped, shared, workers, added⟩ := draining.release
  obtain ⟨batch, positive, most, later⟩ := draining_resume shared workers added filled
  exact ⟨batch, _, positive, most, stepped, later⟩

theorem Draining.exit (draining : Draining missing system nNow 0 0) :
    ∃ next, CheckSystem.step (.finish none) system = some next ∧ Missed missing next := by
  obtain ⟨cleaned, nTotal, stepped, shared, workers, added⟩ := draining.release
  have turn : cleaned.shared.turn true = ({ cleaned.shared with nTotal := nTotal - 1 },
      .exit true) := by
    rw [shared]
    rfl
  refine ⟨_, stepped, ?_⟩
  simp only [resume, Option.isNone_none, turn, ↓reduceIte]
  refine ⟨_, List.mem_cons_self, rfl, ?_⟩
  simp only [Fintype.sum_option, workers, length_nil, Finset.sum_const_zero, add_zero]
  exact added

theorem Draining.reaches {nNow left : ℕ} (draining : Draining missing system nNow left size) :
    Reaches CheckSystem.step (Missed missing) system := by
  induction size using Nat.strong_induction_on generalizing system nNow left with
  | _ size ih =>
    induction left generalizing system with
    | zero =>
      by_cases filled : size = 0
      · subst filled
        obtain ⟨next, stepped, missed⟩ := draining.exit
        exact (Reaches.here missed).of_step stepped
      · obtain ⟨batch, next, some, -, stepped, later⟩ := draining.finish filled
        exact (ih (size - batch) (by omega) later).of_step stepped
    | succ left ih' =>
      obtain ⟨next, stepped, later⟩ := draining.execute
      exact (ih' later).of_step stepped

end Overflow

/-- Three workers hold 2^32 checks between them: with nothing left in the queue `nTodo` is zero,
and `Wait` returns true. -/
theorem not_wait_exact_overflow : ∃ actions final,
    run CheckSystem.step actions (initial (2 ^ 32 - 1) : CheckSystem Unit (Fin 3)) = some final ∧
      (∃ round ∈ final.rounds, round.result = true ∧
        (∑ thread, (round.accounted thread).length) + 2 ^ 32 = round.added.length) ∧
      ¬∀ round ∈ final.rounds, round.Exact := by
  have start : Crowded (initial (2 ^ 32 - 1)) 0 0 0 := ⟨rfl, rfl, fun _ _ => rfl, rfl, rfl⟩
  obtain ⟨actions, final, runs, missed⟩ : Reaches CheckSystem.step (Missed (2 ^ 32))
      (initial (2 ^ 32 - 1)) := by
    refine start.add (2 ^ 32 - 1) fun _ first => ?_
    refine first.enter 0 rfl (by decide : _ = 2 ^ 31 - 1) (by decide) fun _ first => ?_
    refine first.add (2 ^ 30 + 6) fun _ second => ?_
    refine second.enter 1 rfl (by decide : _ = 2 ^ 30 + 2) (by decide) fun _ second => ?_
    refine second.add (2 ^ 31 - 8) fun _ third => ?_
    refine third.enter 2 rfl (by decide : _ = 2 ^ 30 - 1) (by decide) fun _ third => ?_
    obtain ⟨batch, next, -, -, stepped, draining⟩ := 
      third.drain (by decide) (by decide : _ + 2 ^ 32 = _) (by decide)
    exact draining.reaches.of_step stepped
  refine ⟨actions, final, runs, missed, ?_⟩
  intro exact
  obtain ⟨round, mem, -, total⟩ := missed
  have counted := congrArg Multiset.card (exact round mem).taken
  simp only [Multiset.card_sum, Multiset.coe_card, List.length_map] at counted
  omega

end DogeCash.CheckSystem
