import DogeCash.Foundation.Run
import DogeCash.Foundation.Writes
import DogeCash.Masternode.LockVotes

/-! # Sporks

A spork message is taken from the network if it is newer than the active one of its id, and
is then written to the database, from which a restarted node loads the active sporks. A spork
that the node signs itself becomes active without being compared or written.
-/

namespace DogeCash

open Function (update update_self)
open List (mem_append mem_cons_self mem_singleton)

structure CSporkMessage where
  nSporkID : Int
  nValue : Int
  nTimeSigned : Int
  vchSig : List UInt8
  nMessVersion : Int
  deriving DecidableEq

/-- The ids of `sporkDefs`, in order. -/
def sporkDefs : List Int :=
  [10001, 10002, 10004, 10007, 10008, 10009, 10012, 10013, 10014, 10015, 10017, 10018]

/-- What `ProcessSpork` asks the rest of the node. -/
structure SporkEnv where
  fLiteMode : Bool
  tipHeight : Option Int
  /-- `GetAdjustedTime` -/
  adjustedTime : Int
  newSigsActive : Int → Bool
  newSporkStart : Int
  rejectOldSporkKey : Int
  /-- `CSporkMessage::CheckSignature` with the key of the network. -/
  checkSignature : CSporkMessage → Bool
  /-- `CSporkMessage::CheckSignature` with the old key. -/
  checkSignatureOld : CSporkMessage → Bool

/-- The active sporks of `CSporkManager` and the sporks in the database, which holds each of
them under its id. -/
structure CSporkManager where
  mapSporksActive : Int → Option CSporkMessage
  sporkDB : Int → Option CSporkMessage
  keyed : ∀ nSporkID spork, sporkDB nSporkID = some spork → spork.nSporkID = nSporkID

/-- What changes the sporks: a message, or a spork that the node signs at some time, with what
signing returns. -/
inductive SporkAction where
  | processSpork (env : SporkEnv) (spork : CSporkMessage)
  | updateSpork (nSporkID nValue time : Int) (sign : CSporkMessage → Option (List UInt8 × Int))

namespace SporkEnv

variable (env : SporkEnv) (spork : CSporkMessage)

def isFromFuture : Bool := env.adjustedTime + 2 * 60 * 60 < spork.nTimeSigned

def isOutdated (nHeight : Int) : Bool :=
  spork.nMessVersion ≠ messVerHash && env.newSigsActive (nHeight - 600)

/-- The signature is valid: by the key of the network, or by the old one while that is still
accepted. -/
def isSigned : Bool :=
  env.checkSignature spork ||
    (!decide (env.newSporkStart ≤ spork.nTimeSigned) &&
      decide (env.adjustedTime < env.rejectOldSporkKey) && env.checkSignatureOld spork)

/-- A message is valid: its id is known, it is not from the future, its version is accepted
and it is signed. -/
def admits : Bool :=
  !env.fLiteMode &&
    match env.tipHeight with
    | none => false
    | some nHeight =>
      decide (spork.nSporkID ∈ sporkDefs) &&
        !env.isFromFuture spork && !env.isOutdated spork nHeight && env.isSigned spork

end SporkEnv

namespace CSporkManager

def initial : CSporkManager where
  mapSporksActive := fun _ => none
  sporkDB := fun _ => none
  keyed := by
    intro _ _ present
    cases present

def hasNewer (spork : CSporkMessage) (manager : CSporkManager) : Bool :=
  match manager.mapSporksActive spork.nSporkID with
  | none => false
  | some active => spork.nTimeSigned ≤ active.nTimeSigned

def accept (spork : CSporkMessage) (manager : CSporkManager) : CSporkManager where
  mapSporksActive := update manager.mapSporksActive spork.nSporkID (some spork)
  sporkDB := update manager.sporkDB spork.nSporkID (some spork)
  keyed := forall_update_some rfl fun nSporkID other _ => manager.keyed nSporkID other

/-- `CSporkManager::ProcessSpork` for the message `spork`. -/
def processSpork (env : SporkEnv) (spork : CSporkMessage) (manager : CSporkManager) :
    CSporkManager :=
  if env.fLiteMode then manager
  else
    match env.tipHeight with
    | none => manager
    | some nHeight =>
      if spork.nSporkID ∉ sporkDefs then manager
      else if env.isFromFuture spork then manager
      else if env.isOutdated spork nHeight then manager
      else if manager.hasNewer spork then manager
      else if !env.isSigned spork then manager
      else manager.accept spork

/-- `CSporkManager::UpdateSpork`, with whether it signs. -/
def updateSpork (nSporkID nValue time : Int) (sign : CSporkMessage → Option (List UInt8 × Int))
    (manager : CSporkManager) : Bool × CSporkManager :=
  match sign ⟨nSporkID, nValue, time, [], messVerHash⟩ with
  | none => (false, manager)
  | some (vchSig, nMessVersion) =>
    (true, { manager with
      mapSporksActive := update manager.mapSporksActive nSporkID
        (some ⟨nSporkID, nValue, time, vchSig, nMessVersion⟩) })

/-- One round of the loop of `LoadSporksFromDB`. -/
def loadSpork (manager : CSporkManager) (sporkId : Int) : CSporkManager :=
  match manager.sporkDB sporkId with
  | none => manager
  | some spork =>
    { manager with mapSporksActive := update manager.mapSporksActive spork.nSporkID (some spork) }

def loadSporksFromDB (manager : CSporkManager) : CSporkManager := sporkDefs.foldl loadSpork manager

def clear (manager : CSporkManager) : CSporkManager :=
  { manager with mapSporksActive := fun _ => none }

def step : SporkAction → CSporkManager → CSporkManager
  | .processSpork env spork, manager => manager.processSpork env spork
  | .updateSpork nSporkID nValue time sign, manager =>
    (manager.updateSpork nSporkID nValue time sign).2

/-- A restart reads back the active sporks. -/
def Restores (manager : CSporkManager) : Prop :=
  manager.clear.loadSporksFromDB.mapSporksActive = manager.mapSporksActive

def updated (nSporkID nValue time : Int) (sign : CSporkMessage → Option (List UInt8 × Int)) :
    Option CSporkMessage :=
  (sign ⟨nSporkID, nValue, time, [], messVerHash⟩).map fun (vchSig, nMessVersion) =>
    ⟨nSporkID, nValue, time, vchSig, nMessVersion⟩

/-- An action signs no spork locally other than one that is active. -/
def SignsNothingNew (manager : CSporkManager) : SporkAction → Prop
  | .processSpork _ _ => True
  | .updateSpork nSporkID nValue time sign =>
    ∀ spork, updated nSporkID nValue time sign = some spork →
      manager.mapSporksActive nSporkID = some spork

def delivered (actions : List SporkAction) : List CSporkMessage :=
  actions.filterMap fun
    | .processSpork env spork => if env.admits spork then some spork else none
    | .updateSpork _ _ _ _ => none

def IsDelivery : SporkAction → Prop
  | .processSpork _ _ => True
  | .updateSpork _ _ _ _ => False

def DistinctTimes (messages : List CSporkMessage) : Prop :=
  ∀ first ∈ messages, ∀ second ∈ messages, first.nSporkID = second.nSporkID →
    first.nTimeSigned = second.nTimeSigned → first = second

/-- Of every spork the latest message is active. -/
def HasLatest (messages : List CSporkMessage) (manager : CSporkManager) : Prop :=
  ∀ nSporkID spork, manager.mapSporksActive nSporkID = some spork ↔
    spork ∈ messages ∧ spork.nSporkID = nSporkID ∧
      ∀ other ∈ messages, other.nSporkID = nSporkID → other.nTimeSigned ≤ spork.nTimeSigned

/-! ## One action -/

variable {manager : CSporkManager}

theorem processSpork_eq (env : SporkEnv) (spork : CSporkMessage) (manager : CSporkManager) :
    manager.processSpork env spork =
      if env.admits spork && !manager.hasNewer spork then manager.accept spork else manager := by
  unfold processSpork SporkEnv.admits
  cases lite : env.fLiteMode with
  | true => simp
  | false =>
    cases tip : env.tipHeight with
    | none => simp
    | some nHeight =>
      by_cases known : spork.nSporkID ∈ sporkDefs
      · cases future : env.isFromFuture spork <;>
          cases outdated : env.isOutdated spork nHeight <;>
          cases newer : manager.hasNewer spork <;>
          cases signed : env.isSigned spork <;> simp [known, outdated]
      · simp [known]

theorem updateSpork_cases (nSporkID nValue time : Int)
    (sign : CSporkMessage → Option (List UInt8 × Int)) (manager : CSporkManager) :
    (updated nSporkID nValue time sign = none ∧
        (manager.updateSpork nSporkID nValue time sign).2 = manager) ∨
      ∃ spork, updated nSporkID nValue time sign = some spork ∧
        (manager.updateSpork nSporkID nValue time sign).2 = { manager with
          mapSporksActive := update manager.mapSporksActive nSporkID (some spork) } := by
  unfold updateSpork updated
  cases sign ⟨nSporkID, nValue, time, [], messVerHash⟩ with
  | none => exact Or.inl ⟨rfl, rfl⟩
  | some signed => exact Or.inr ⟨_, rfl, rfl⟩

theorem foldl_loadSpork (sporkIds : List Int) (manager : CSporkManager) :
    sporkIds.foldl loadSpork manager = { manager with
      mapSporksActive := fun nSporkID =>
        if nSporkID ∈ sporkIds then (manager.sporkDB nSporkID).or (manager.mapSporksActive nSporkID)
        else manager.mapSporksActive nSporkID } := by
  induction sporkIds generalizing manager with
  | nil => simp
  | cons sporkId rest ih =>
    rw [List.foldl_cons, ih]
    unfold loadSpork
    cases held : manager.sporkDB sporkId with
    | none =>
      congr 1
      funext nSporkID
      by_cases same : nSporkID = sporkId
      · simp [same, held]
      · simp [same]
    | some spork =>
      have key := manager.keyed sporkId spork held
      congr 1
      funext nSporkID
      by_cases same : nSporkID = sporkId
      · simp [same, held, key]
      · simp [same, key]

theorem loadSporksFromDB_clear (manager : CSporkManager) (nSporkID : Int) :
    manager.clear.loadSporksFromDB.mapSporksActive nSporkID =
      if nSporkID ∈ sporkDefs then manager.sporkDB nSporkID else none := by
  rw [loadSporksFromDB, foldl_loadSpork]
  change (if nSporkID ∈ sporkDefs then (manager.sporkDB nSporkID).or none else none) = _
  rw [Option.or_none]

theorem restores_iff : manager.Restores ↔ ∀ nSporkID,
    manager.mapSporksActive nSporkID =
      if nSporkID ∈ sporkDefs then manager.sporkDB nSporkID else none := by
  unfold Restores
  rw [funext_iff]
  exact forall_congr' fun nSporkID => by rw [loadSporksFromDB_clear, eq_comm]

variable {spork : CSporkMessage} {messages : List CSporkMessage}

theorem Restores.accept (restores : manager.Restores) (known : spork.nSporkID ∈ sporkDefs) :
    (manager.accept spork).Restores := by
  rw [restores_iff] at restores ⊢
  intro nSporkID
  by_cases same : nSporkID = spork.nSporkID
  · subst same
    simp [CSporkManager.accept, known]
  · simp [CSporkManager.accept, same, restores nSporkID]

theorem SporkEnv.known_of_admits {env : SporkEnv} (admits : env.admits spork = true) :
    spork.nSporkID ∈ sporkDefs := by
  unfold SporkEnv.admits at admits
  cases tip : env.tipHeight with
  | none => simp [tip] at admits
  | some nHeight =>
    simp only [tip, Bool.and_eq_true, decide_eq_true_eq] at admits
    exact admits.2.1.1.1

theorem restores_step_iff (restores : manager.Restores) (action : SporkAction) :
    (step action manager).Restores ↔ manager.SignsNothingNew action := by
  cases action with
  | processSpork env spork =>
    refine iff_of_true ?_ trivial
    change (manager.processSpork env spork).Restores
    rw [processSpork_eq]
    split_ifs with accepted
    · exact restores.accept (SporkEnv.known_of_admits (Bool.and_eq_true_iff.mp accepted).1)
    · exact restores
  | updateSpork nSporkID nValue time sign =>
    change (manager.updateSpork nSporkID nValue time sign).2.Restores ↔
      ∀ spork, updated nSporkID nValue time sign = some spork →
        manager.mapSporksActive nSporkID = some spork
    rcases manager.updateSpork_cases nSporkID nValue time sign with
      ⟨unsigned, same⟩ | ⟨spork, signed, changed⟩
    · rw [same, unsigned]
      exact iff_of_true restores fun spork impossible => by cases impossible
    · rw [changed, signed, restores_iff]
      constructor
      · intro after other equal
        rw [restores_iff.mp restores nSporkID, ← Option.some_inj.mp equal]
        exact (after nSporkID).symm.trans (update_self ..)
      · intro active other
        have unchanged : update manager.mapSporksActive nSporkID (some spork) =
            manager.mapSporksActive := by
          rw [← active spork rfl, Function.update_eq_self]
        exact (congrFun unchanged other).trans (restores_iff.mp restores other)

/-! ## Runs -/

theorem restores_initial : initial.Restores := by
  rw [restores_iff]
  intro nSporkID
  exact (ite_self none).symm

def IsLatest (messages : List CSporkMessage) (nSporkID : Int) : Option CSporkMessage → Prop
  | none => ∀ other ∈ messages, other.nSporkID ≠ nSporkID
  | some spork => spork ∈ messages ∧ spork.nSporkID = nSporkID ∧
      ∀ other ∈ messages, other.nSporkID = nSporkID → other.nTimeSigned ≤ spork.nTimeSigned

theorem IsLatest.append_other {nSporkID : Int} {active : Option CSporkMessage}
    (latest : IsLatest messages nSporkID active) (differ : spork.nSporkID ≠ nSporkID) :
    IsLatest (messages ++ [spork]) nSporkID active := by
  cases active with
  | none =>
    intro other mem
    rcases mem_append.mp mem with before | here
    · exact latest other before
    · rw [mem_singleton.mp here]
      exact differ
  | some active =>
    obtain ⟨inside, sameId, last⟩ := latest
    refine ⟨List.mem_append_left _ inside, sameId, fun other mem otherId => ?_⟩
    rcases mem_append.mp mem with before | here
    · exact last other before otherId
    · rw [mem_singleton.mp here] at otherId
      exact absurd otherId differ

theorem isLatest_processSpork
    (latest : ∀ nSporkID, IsLatest messages nSporkID (manager.mapSporksActive nSporkID))
    {env : SporkEnv} (admits : env.admits spork = true) (nSporkID : Int) :
    IsLatest (messages ++ [spork]) nSporkID
      ((manager.processSpork env spork).mapSporksActive nSporkID) := by
  rw [processSpork_eq, admits, Bool.true_and]
  by_cases same : nSporkID = spork.nSporkID
  · subst same
    have here := latest spork.nSporkID
    unfold hasNewer
    cases active : manager.mapSporksActive spork.nSporkID with
    | none =>
      rw [active] at here
      simp only [Bool.not_false, ↓reduceIte, accept, update_self]
      refine ⟨List.mem_append_right _ mem_cons_self, rfl, fun other mem sameId => ?_⟩
      rcases mem_append.mp mem with before | new
      · exact absurd sameId (here other before)
      · rw [mem_singleton.mp new]
    | some current =>
      rw [active] at here
      obtain ⟨inside, currentId, last⟩ := here
      by_cases newer : spork.nTimeSigned ≤ current.nTimeSigned
      · simp only [newer, decide_true, Bool.not_true, Bool.false_eq_true, ↓reduceIte, active]
        refine ⟨List.mem_append_left _ inside, currentId, fun other mem sameId => ?_⟩
        rcases mem_append.mp mem with before | new
        · exact last other before sameId
        · rw [mem_singleton.mp new]
          exact newer
      · simp only [newer, decide_false, Bool.not_false, ↓reduceIte, accept, update_self]
        refine ⟨List.mem_append_right _ mem_cons_self, rfl, fun other mem sameId => ?_⟩
        rcases mem_append.mp mem with before | new
        · have earlier := last other before sameId
          omega
        · rw [mem_singleton.mp new]
  · have kept : ((if !manager.hasNewer spork then manager.accept spork else manager)
        |>.mapSporksActive nSporkID) = manager.mapSporksActive nSporkID := by
      split_ifs
      · exact Function.update_of_ne same _ _
      · rfl
    rw [kept]
    exact (latest nSporkID).append_other (Ne.symm same)

theorem delivered_processSpork (env : SporkEnv) (spork : CSporkMessage) (rest : List SporkAction) :
    delivered (.processSpork env spork :: rest) =
      (if env.admits spork then [spork] else []) ++ delivered rest := by
  unfold delivered
  cases admits : env.admits spork <;> simp [admits]

theorem isLatest_initial (nSporkID : Int) :
    IsLatest [] nSporkID (initial.mapSporksActive nSporkID) :=
  nofun

theorem isLatest_foldl (actions : List SporkAction)
    (deliveries : ∀ action ∈ actions, IsDelivery action)
    (latest : ∀ nSporkID, IsLatest messages nSporkID (manager.mapSporksActive nSporkID))
    (nSporkID : Int) :
    IsLatest (messages ++ delivered actions) nSporkID
      ((actions.foldl (fun manager action => step action manager) manager).mapSporksActive
        nSporkID) := by
  induction actions generalizing manager messages with
  | nil => simpa [delivered] using latest nSporkID
  | cons action rest ih =>
    have later : ∀ other ∈ rest, IsDelivery other := fun other mem =>
      deliveries other (List.mem_cons_of_mem _ mem)
    cases action with
    | updateSpork id value time sign =>
      exact absurd (deliveries _ mem_cons_self) (by simp [IsDelivery])
    | processSpork env spork =>
      rw [List.foldl_cons, delivered_processSpork]
      change IsLatest _ nSporkID ((rest.foldl _
        (manager.processSpork env spork)).mapSporksActive nSporkID)
      cases admits : env.admits spork with
      | true =>
        rw [if_pos rfl, ← List.append_assoc]
        exact ih later (isLatest_processSpork latest admits)
      | false =>
        rw [if_neg Bool.false_ne_true, List.nil_append, processSpork_eq, admits,
          Bool.false_and, if_neg Bool.false_ne_true]
        exact ih later latest

theorem hasLatest_of_isLatest (distinct : DistinctTimes messages)
    (latest : ∀ nSporkID, IsLatest messages nSporkID (manager.mapSporksActive nSporkID)) :
    manager.HasLatest messages := by
  intro nSporkID spork
  have here := latest nSporkID
  cases active : manager.mapSporksActive nSporkID with
  | none =>
    rw [active] at here
    exact iff_of_false (by simp) fun ⟨mem, sameId, _⟩ => here spork mem sameId
  | some current =>
    rw [active] at here
    obtain ⟨inside, currentId, last⟩ := here
    rw [Option.some_inj]
    constructor
    · rintro rfl
      exact ⟨inside, currentId, last⟩
    · rintro ⟨mem, sameId, highest⟩
      have sameTime : current.nTimeSigned = spork.nTimeSigned :=
        Int.le_antisymm (highest current inside currentId) (last spork mem sameId)
      exact distinct current inside spork mem (currentId.trans sameId.symm) sameTime

def after (actions : List SporkAction) : CSporkManager :=
  actions.foldl (fun manager action => step action manager) initial

theorem runStays_restores_iff (actions : List SporkAction) :
    RunStays (total step) Restores actions initial ↔
      RunMeets (total step) SignsNothingNew actions initial := by
  have oneStep : ∀ action ∈ actions, ∀ manager, Restores manager →
      (Restores (step action manager) ↔ SignsNothingNew manager action) := by
    intro action _ manager restores
    exact restores_step_iff restores action
  have start : Restores initial := restores_initial
  exact runStays_total_iff oneStep start

/-- **Sporks.** The messages that are delivered converge to the latest of each id, in every
order. A restart brings back the active sporks throughout a run exactly if no step of it makes
a new locally signed spork active. -/
theorem sporks_settle_iff (actions : List SporkAction)
    (distinct : DistinctTimes (delivered actions)) :
    (((∀ action ∈ actions, IsDelivery action) → (after actions).HasLatest (delivered actions)) ∧
        RunStays (total step) Restores actions initial) ↔
      RunMeets (total step) SignsNothingNew actions initial := by
  have converges : (∀ action ∈ actions, IsDelivery action) →
      (after actions).HasLatest (delivered actions) := by
    intro deliveries
    exact hasLatest_of_isLatest distinct (isLatest_foldl actions deliveries isLatest_initial)
  rw [← runStays_restores_iff]
  exact ⟨And.right, fun stays => ⟨converges, stays⟩⟩

/-- A node at height 100 with valid signatures. -/
def sampleSporkEnv : SporkEnv where
  fLiteMode := false
  tipHeight := some 100
  adjustedTime := 5000
  newSigsActive := fun _ => true
  newSporkStart := 0
  rejectOldSporkKey := 0
  checkSignature := fun _ => true
  checkSignatureOld := fun _ => false

/-- Three messages of which the second is the latest, the first one again, and a signed spork
that is active already. -/
def sampleSporks : List SporkAction :=
  [.processSpork sampleSporkEnv ⟨10001, 0, 1000, [1], 1⟩,
    .processSpork sampleSporkEnv ⟨10001, 7, 3000, [2], 1⟩,
    .processSpork sampleSporkEnv ⟨10001, 0, 2000, [3], 1⟩,
    .processSpork sampleSporkEnv ⟨10001, 0, 1000, [1], 1⟩,
    .updateSpork 10001 7 3000 fun _ => some ([2], 1)]

theorem sporks_settle_iff_sample :
    (((∀ action ∈ sampleSporks, IsDelivery action) →
          (after sampleSporks).HasLatest (delivered sampleSporks)) ∧
        RunStays (total step) Restores sampleSporks initial) ↔
      RunMeets (total step) SignsNothingNew sampleSporks initial :=
  sporks_settle_iff sampleSporks (by unfold DistinctTimes; decide)

/-- A spork that the node signs is active until it restarts. -/
theorem not_sporks_settle_signed :
    ¬∀ actions, DistinctTimes (delivered actions) →
      ((∀ action ∈ actions, IsDelivery action) → (after actions).HasLatest (delivered actions)) ∧
        RunStays (total step) Restores actions initial := by
  intro settled
  obtain ⟨-, -, restores⟩ := settled [.updateSpork 10001 7 3000 fun _ => some ([2], 1)]
    (by unfold DistinctTimes; decide)
  have here := congrFun (show Restores _ from restores) 10001
  exact absurd here (by decide)

end CSporkManager

end DogeCash
