import DogeCash.Foundation.Selections
import DogeCash.Network.BlocksInFlight

/-! # The bookkeeping of blocks in flight

The queues, their lengths and the map agree in every run. The counter of validated headers is off
by those of the peers that left (`drift`), and no call makes up for it.
-/

namespace DogeCash

open CNodeState (dequeue nValidated)
open KeyedMap (forall_erase forall_insert lookup_erase_eq_ite lookup_insert_eq_ite)
open List (map_append map_cons mem_append mem_map mem_singleton sum_cons)

namespace BlocksInFlight

/-- What agrees in every run. An element of a list is made once. -/
structure Linked (net : BlocksInFlight) : Prop extends Entered net where
  distinct : ∀ nodeid state, net.mapNodeState.lookup nodeid = some state →
    (state.vBlocksInFlight.map QueuedBlock.place).Nodup
  made : ∀ nodeid state, net.mapNodeState.lookup nodeid = some state →
    ∀ entry ∈ state.vBlocksInFlight, entry.place < net.nPlaces

def drift (net : BlocksInFlight) : Int :=
  net.nQueuedValidatedHeaders - KeyedMap.total nValidated net.mapNodeState

theorem Linked.booked_iff {net : BlocksInFlight} (linked : Linked net) :
    net.Booked ↔ net.drift = 0 :=
  ⟨fun booked => sub_eq_zero.mpr booked.validated,
    fun exact => ⟨linked.toEntered, sub_eq_zero.mp exact⟩⟩

theorem boolToInt_nonneg (flag : Bool) : 0 ≤ boolToInt flag := by
  cases flag with
  | false => exact le_rfl
  | true => exact Int.one_nonneg

theorem nValidated_eq_zero_iff (state : CNodeState) :
    state.nValidated = 0 ↔ ∀ entry ∈ state.vBlocksInFlight, entry.fValidatedHeaders = false := by
  unfold nValidated
  induction state.vBlocksInFlight with
  | nil => simp
  | cons entry rest ih =>
    have nonneg : 0 ≤ (rest.map fun entry => boolToInt entry.fValidatedHeaders).sum :=
      List.sum_nonneg (List.forall_mem_map.mpr fun entry _ => boolToInt_nonneg _)
    rw [map_cons, sum_cons, List.forall_mem_cons, ← ih]
    cases entry.fValidatedHeaders with
    | false => simp [boolToInt]
    | true =>
      unfold boolToInt at nonneg ⊢
      simp only [if_pos, reduceCtorEq, false_and, iff_false]
      omega

namespace Linked

variable {net : BlocksInFlight} {nodeid : Int} {hash : UInt256}

theorem empty : Linked {} := by
  refine ⟨⟨nofun, nofun, fun hash nodeid place => ⟨nofun, ?_⟩⟩, nofun, nofun⟩
  rintro ⟨state, known, -⟩
  cases known

theorem initializeNode (linked : Linked net) (nodeid : Int) :
    Linked (net.initializeNode nodeid) ∧ (net.initializeNode nodeid).drift = net.drift := by
  unfold BlocksInFlight.initializeNode
  cases known : net.mapNodeState.lookup nodeid with
  | some state => exact ⟨linked, rfl⟩
  | none =>
    refine ⟨⟨⟨forall_insert rfl linked.counted,
      forall_insert List.nodup_nil linked.once, fun hash other place => ?_⟩,
      forall_insert List.nodup_nil linked.distinct,
      forall_insert (nofun) linked.made⟩, ?_⟩
    · rw [linked.pointing, lookup_insert_eq_ite]
      split_ifs with same
      · rw [same, known]
        constructor
        · rintro ⟨state, found, -⟩
          cases found
        · rintro ⟨-, ⟨⟩, entry, mem, -⟩
          cases mem
      · exact Iff.rfl
    · unfold drift
      rw [KeyedMap.total_insert _ _ known]
      exact congrArg (net.nQueuedValidatedHeaders - ·) (zero_add _)

theorem markBlockAsReceived_eq (linked : Linked net) {place : ℕ}
    (found : net.mapBlocksInFlight.lookup hash = some (nodeid, place)) :
    ∃ state entry, net.mapNodeState.lookup nodeid = some state ∧
      entry ∈ state.vBlocksInFlight ∧ entry.hash = hash ∧ entry.place = place ∧
      net.markBlockAsReceived hash = some { net with
        nQueuedValidatedHeaders := net.nQueuedValidatedHeaders - boolToInt entry.fValidatedHeaders
        mapNodeState := net.mapNodeState.insert nodeid (state.dequeue place)
        mapBlocksInFlight := net.mapBlocksInFlight.erase hash } := by
  obtain ⟨state, known, entry, mem, hashed, placed⟩ := (linked.pointing _ _ _).mp found
  refine ⟨state, entry, known, mem, hashed, placed, ?_⟩
  unfold BlocksInFlight.markBlockAsReceived
  rw [found]
  dsimp only
  rw [known]
  dsimp only
  cases first : state.vBlocksInFlight.find? fun entry => entry.place = place with
  | none =>
    have missing := List.find?_eq_none.mp first entry mem
    exact absurd (decide_eq_true placed) missing
  | some other =>
    have same : other = entry := by
      refine List.inj_on_of_nodup_map (linked.distinct _ _ known)
        (List.mem_of_find?_eq_some first) mem ?_
      rw [placed]
      simpa using List.find?_some first
    rw [same]

theorem markBlockAsReceived (linked : Linked net) (hash : UInt256) :
    ∃ after, net.markBlockAsReceived hash = some after ∧ Linked after ∧ after.drift = net.drift ∧
      after.mapBlocksInFlight.lookup hash = none ∧
      ∀ nodeid, (after.mapNodeState.lookup nodeid).isSome =
        (net.mapNodeState.lookup nodeid).isSome := by
  cases found : net.mapBlocksInFlight.lookup hash with
  | none =>
    refine ⟨net, ?_, linked, rfl, found, fun _ => rfl⟩
    unfold BlocksInFlight.markBlockAsReceived
    rw [found]
  | some target =>
    obtain ⟨nodeid, place⟩ := target
    obtain ⟨state, entry, known, mem, hashed, placed, receives⟩ :=
      linked.markBlockAsReceived_eq found
    have queue : (state.dequeue place).vBlocksInFlight =
        state.vBlocksInFlight.filter fun other => other.place ≠ entry.place := by
      rw [placed]
      rfl
    have perm : state.vBlocksInFlight.Perm (entry :: (state.dequeue place).vBlocksInFlight) :=
      queue ▸ perm_cons_filter_ne (linked.distinct _ _ known) mem
    have shorter : (state.dequeue place).vBlocksInFlight.Sublist state.vBlocksInFlight := by
      exact List.filter_sublist
    refine ⟨_, receives, ⟨⟨forall_insert ?_ linked.counted,
      forall_insert ((linked.once _ _ known).sublist (shorter.map _)) linked.once,
      fun other node spot => ?_⟩,
      forall_insert ((linked.distinct _ _ known).sublist (shorter.map _))
        linked.distinct,
      forall_insert (fun entry inside => linked.made _ _ known entry
        (shorter.subset inside)) linked.made⟩, ?_, AList.lookup_erase _ _, fun node => ?_⟩
    · have counted := linked.counted _ _ known
      have length := perm.length_eq
      rw [List.length_cons] at length
      unfold dequeue at length ⊢
      dsimp only at length ⊢
      omega
    · rw [lookup_erase_eq_ite, lookup_insert_eq_ite]
      by_cases this : other = hash
      · rw [if_pos this]
        refine ⟨nofun, ?_⟩
        rintro ⟨owner, held, remaining, inside, itsHash, itsPlace⟩
        split_ifs at held with same
        · cases held
          rw [queue, List.mem_filter] at inside
          have equal : remaining = entry :=
            List.inj_on_of_nodup_map (linked.once _ _ known) inside.1 mem
              (itsHash.trans (this.trans hashed.symm))
          exact absurd (congrArg QueuedBlock.place equal) (of_decide_eq_true inside.2)
        · have pointed := (linked.pointing other node spot).mpr
            ⟨owner, held, remaining, inside, itsHash, itsPlace⟩
          rw [this, found] at pointed
          cases pointed
          exact absurd rfl same
      · rw [if_neg this, linked.pointing]
        split_ifs with same
        · rw [same, known]
          constructor
          · rintro ⟨_, ⟨⟩, remaining, inside, itsHash, itsPlace⟩
            refine ⟨_, rfl, remaining, ?_, itsHash, itsPlace⟩
            rw [queue, List.mem_filter]
            refine ⟨inside, decide_eq_true fun equal => this ?_⟩
            have same : remaining = entry :=
              List.inj_on_of_nodup_map (linked.distinct _ _ known) inside mem equal
            rw [← itsHash, same, hashed]
          · rintro ⟨_, ⟨⟩, remaining, inside, itsHash, itsPlace⟩
            exact ⟨_, rfl, remaining, shorter.subset inside, itsHash, itsPlace⟩
        · exact Iff.rfl
    · have weight : state.nValidated =
          boolToInt entry.fValidatedHeaders + (state.dequeue place).nValidated :=
        (perm.map _).sum_eq.trans sum_cons
      have total := KeyedMap.total_insert_of_present nValidated
        (state.dequeue place) known
      unfold drift
      dsimp only
      omega
    · rw [lookup_insert_eq_ite]
      split_ifs with same
      · rw [same, known]
        rfl
      · rfl

variable {state : CNodeState} {after : BlocksInFlight}

theorem enqueueBlock (linked : Linked net) (known : net.mapNodeState.lookup nodeid = some state)
    (free : net.mapBlocksInFlight.lookup hash = none) (pindex : Option UInt256) (nTime : Int) :
    ∃ after, net.enqueueBlock nodeid hash pindex nTime = some after ∧ Linked after ∧
      after.drift = net.drift := by
  unfold BlocksInFlight.enqueueBlock
  rw [known]
  refine ⟨_, rfl, ?_⟩
  generalize made : (⟨net.nPlaces, hash, pindex, nTime, net.nQueuedValidatedHeaders,
    pindex.isSome⟩ : QueuedBlock) = entry
  have hashed : entry.hash = hash := made ▸ rfl
  have placed : entry.place = net.nPlaces := made ▸ rfl
  have queue : (state.enqueue entry).vBlocksInFlight = state.vBlocksInFlight ++ [entry] := rfl
  have noOther : ∀ {node owner}, net.mapNodeState.lookup node = some owner →
      ∀ other ∈ owner.vBlocksInFlight, other.hash ≠ hash := by
    intro node owner held other inside same
    have pointed := (linked.pointing hash node other.place).mpr
      ⟨owner, held, other, inside, same, rfl⟩
    rw [free] at pointed
    cases pointed
  refine ⟨⟨⟨forall_insert ?_ linked.counted, forall_insert ?_ linked.once,
    fun other node spot => ?_⟩, forall_insert ?_ linked.distinct,
    forall_insert ?_ fun other owner held remaining inside =>
      Nat.lt_succ_of_lt (linked.made other owner held remaining inside)⟩, ?_⟩
  · rw [queue, List.length_append, List.length_singleton, Int.natCast_add, Int.natCast_one,
      ← linked.counted _ _ known]
    rfl
  · rw [queue, map_append]
    refine List.nodup_append.mpr ⟨linked.once _ _ known, List.nodup_singleton _, ?_⟩
    intro other earlier own last
    obtain ⟨remaining, inside, rfl⟩ := mem_map.mp earlier
    rw [mem_singleton.mp last, hashed]
    exact noOther known remaining inside
  · rw [lookup_insert_eq_ite, lookup_insert_eq_ite]
    by_cases this : other = hash
    · rw [if_pos this]
      constructor
      · rintro ⟨⟩
        exact ⟨_, if_pos rfl, entry, List.mem_append_right _ List.mem_cons_self,
          hashed.trans this.symm, placed⟩
      · rintro ⟨owner, held, remaining, inside, itsHash, itsPlace⟩
        split_ifs at held with same
        · cases held
          rcases mem_append.mp inside with earlier | last
          · exact absurd (itsHash.trans this) (noOther known remaining earlier)
          · rw [← itsPlace, mem_singleton.mp last, placed, same]
        · exact absurd (itsHash.trans this) (noOther held remaining inside)
    · rw [if_neg this, linked.pointing]
      split_ifs with same
      · rw [same, known]
        constructor
        · rintro ⟨_, ⟨⟩, remaining, inside, facts⟩
          exact ⟨_, rfl, remaining, List.mem_append_left _ inside, facts⟩
        · rintro ⟨_, ⟨⟩, remaining, inside, itsHash, itsPlace⟩
          rcases mem_append.mp inside with earlier | last
          · exact ⟨_, rfl, remaining, earlier, itsHash, itsPlace⟩
          · rw [mem_singleton.mp last, hashed] at itsHash
            exact absurd itsHash.symm this
      · exact Iff.rfl
  · rw [queue, map_append]
    refine List.nodup_append.mpr ⟨linked.distinct _ _ known, List.nodup_singleton _, ?_⟩
    intro other earlier own last
    obtain ⟨remaining, inside, rfl⟩ := mem_map.mp earlier
    rw [mem_singleton.mp last, placed]
    exact (linked.made _ _ known remaining inside).ne
  · intro remaining inside
    rcases mem_append.mp inside with earlier | last
    · exact Nat.lt_succ_of_lt (linked.made _ _ known remaining earlier)
    · rw [mem_singleton.mp last, placed]
      exact Nat.lt_succ_self _
  · have weight : (state.enqueue entry).nValidated =
        state.nValidated + boolToInt entry.fValidatedHeaders := by
      unfold nValidated
      rw [queue, map_append, List.sum_append, List.map_singleton, List.sum_singleton]
    have total := KeyedMap.total_insert_of_present nValidated (state.enqueue entry) known
    unfold drift
    dsimp only
    omega

theorem markBlockAsInFlight (linked : Linked net) {pindex : Option UInt256} {nTime : Int}
    (ok : net.markBlockAsInFlight nodeid hash pindex nTime = some after) :
    Linked after ∧ after.drift = net.drift := by
  unfold BlocksInFlight.markBlockAsInFlight at ok
  cases known : net.mapNodeState.lookup nodeid with
  | none =>
    rw [known] at ok
    cases ok
  | some state =>
    rw [known] at ok
    obtain ⟨received, receives, kept, same, free, nodes⟩ := linked.markBlockAsReceived hash
    have still : (received.mapNodeState.lookup nodeid).isSome = true := by
      rw [nodes, known]
      rfl
    obtain ⟨owner, held⟩ := Option.isSome_iff_exists.mp still
    obtain ⟨next, enqueues, linkedNext, sameNext⟩ := kept.enqueueBlock held free pindex nTime
    rw [receives, Option.bind_some, enqueues] at ok
    cases ok
    exact ⟨linkedNext, sameNext.trans same⟩

theorem lookup_foldl_erase (entries : List QueuedBlock) (map : AList fun _ : UInt256 => Int × ℕ)
    (hash : UInt256) :
    (entries.foldl (fun map entry => map.erase entry.hash) map).lookup hash =
      if hash ∈ entries.map QueuedBlock.hash then none else map.lookup hash := by
  induction entries generalizing map with
  | nil => rfl
  | cons entry rest ih =>
    have erased := lookup_erase_eq_ite map entry.hash hash
    rw [List.foldl_cons, ih, map_cons]
    by_cases later : hash ∈ rest.map QueuedBlock.hash
    · rw [if_pos later, if_pos (List.mem_cons_of_mem _ later)]
    · rw [if_neg later]
      refine erased.trans (if_congr ?_ rfl rfl)
      rw [List.mem_cons, or_iff_left later]

theorem finalizeNode (linked : Linked net) (known : net.mapNodeState.lookup nodeid = some state) :
    ∃ after, net.finalizeNode nodeid = some after ∧ Linked after ∧
      after.drift = net.drift + state.nValidated := by
  unfold BlocksInFlight.finalizeNode
  rw [known]
  refine ⟨_, rfl, ?_⟩
  refine ⟨⟨⟨forall_erase linked.counted, forall_erase linked.once,
    fun hash node place => ?_⟩, forall_erase linked.distinct,
    forall_erase linked.made⟩, ?_⟩
  · rw [lookup_foldl_erase, lookup_erase_eq_ite]
    by_cases queued : hash ∈ state.vBlocksInFlight.map QueuedBlock.hash
    · rw [if_pos queued]
      obtain ⟨entry, inside, hashed⟩ := mem_map.mp queued
      refine ⟨nofun, ?_⟩
      rintro ⟨owner, held, other, mem, itsHash, -⟩
      split_ifs at held with same
      have first := (linked.pointing hash nodeid entry.place).mpr
        ⟨state, known, entry, inside, hashed, rfl⟩
      have second := (linked.pointing hash node other.place).mpr
        ⟨owner, held, other, mem, itsHash, rfl⟩
      have owners := congrArg Prod.fst (Option.some.inj (first.symm.trans second))
      exact absurd owners.symm same
    · rw [if_neg queued, linked.pointing]
      split_ifs with same
      · refine ⟨?_, nofun⟩
        rintro ⟨owner, held, other, mem, itsHash, -⟩
        rw [same, known] at held
        cases held
        exact absurd (mem_map.mpr ⟨other, mem, itsHash⟩) queued
      · exact Iff.rfl
  · have total := KeyedMap.total_erase nValidated known
    unfold drift
    dsimp only
    omega

theorem step (linked : Linked net) {action : InFlightAction}
    (ok : BlocksInFlight.step action net = some after) :
    Linked after ∧ (net.drift = 0 → (after.drift = 0 ↔ net.Quiet action)) := by
  have unmoved : after.drift = net.drift → net.drift = 0 → (after.drift = 0 ↔ True) :=
    fun same exact => ⟨fun _ => trivial, fun _ => same.trans exact⟩
  cases action with
  | initializeNode nodeid =>
    cases ok
    obtain ⟨kept, same⟩ := linked.initializeNode nodeid
    exact ⟨kept, unmoved same⟩
  | finalizeNode nodeid =>
    cases known : net.mapNodeState.lookup nodeid with
    | none =>
      change net.finalizeNode nodeid = some after at ok
      unfold BlocksInFlight.finalizeNode at ok
      rw [known] at ok
      cases ok
    | some state =>
      obtain ⟨next, finalizes, kept, moved⟩ := linked.finalizeNode known
      have same : next = after := Option.some.inj (finalizes.symm.trans ok)
      subst same
      refine ⟨kept, fun exact => ?_⟩
      rw [moved, exact, zero_add, nValidated_eq_zero_iff]
      change _ ↔ ∀ owner, net.mapNodeState.lookup nodeid = some owner →
        ∀ entry ∈ owner.vBlocksInFlight, entry.fValidatedHeaders = false
      rw [known]
      exact ⟨fun quiet owner held => Option.some.inj held ▸ quiet, fun quiet => quiet state rfl⟩
  | markBlockAsInFlight nodeid hash pindex nTime =>
    obtain ⟨kept, same⟩ := linked.markBlockAsInFlight ok
    exact ⟨kept, unmoved same⟩
  | markBlockAsReceived hash =>
    obtain ⟨next, receives, kept, same, -, -⟩ := linked.markBlockAsReceived hash
    have equal : next = after := Option.some.inj (receives.symm.trans ok)
    subst equal
    exact ⟨kept, unmoved same⟩

end Linked

/-- **The bookkeeping is right throughout a run exactly if no peer leaves while blocks with
validated headers are in its queue.** -/
theorem blocksInFlight_booked_iff (operations : List InFlightAction) :
    RunStays step Booked operations {} ↔ RunMeets step Quiet operations {} := by
  refine runStays_iff Linked (fun _ _ _ linked ok => (linked.step ok).1)
    (fun action before refused => ?_) (fun action before after linked booked ok => ?_)
    Linked.empty (Linked.empty.booked_iff.mpr rfl)
  · cases action with
    | finalizeNode nodeid =>
      intro state known
      change before.finalizeNode nodeid = none at refused
      unfold finalizeNode at refused
      rw [known] at refused
      cases refused
    | initializeNode => trivial
    | markBlockAsInFlight => trivial
    | markBlockAsReceived => trivial
  · obtain ⟨kept, decides⟩ := linked.step ok
    rw [kept.booked_iff]
    exact decides (linked.booked_iff.mp booked)

/-- A peer leaves while a block with a validated header is in its queue: the block is still
counted. -/
theorem not_booked_finalizeNode :
    ∃ final, run step [.initializeNode 1, .markBlockAsInFlight 1 7 (some 7) 0, .finalizeNode 1] {} =
      some final ∧ final.nQueuedValidatedHeaders = 1 ∧ final.mapNodeState.keys = [] ∧
      ¬final.Booked := by
  refine ⟨_, rfl, rfl, rfl, fun booked => ?_⟩
  have wrong : (1 : Int) = 0 := booked.validated
  cases wrong

end BlocksInFlight

end DogeCash
