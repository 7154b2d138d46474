import DogeCash.Foundation.KeyedMap
import DogeCash.Foundation.Run
import DogeCash.Primitives.Script

/-! # Blocks in flight

A block that was asked for is in the queue of the peer that was asked. `mapBlocksInFlight` leads
from its hash to the peer and the place in the queue, and `nQueuedValidatedHeaders` counts the
queued blocks whose headers were validated.

The counter is not adjusted when a peer leaves, so it is right exactly as long as no peer leaves
that has such blocks in its queue.
-/

namespace DogeCash

/-- `QueuedBlock`. `place` is the element of the list, which an iterator points at. -/
structure QueuedBlock where
  place : ℕ
  hash : UInt256
  pindex : Option UInt256
  nTime : Int
  nValidatedQueuedBefore : Int
  fValidatedHeaders : Bool

structure CNodeState where
  vBlocksInFlight : List QueuedBlock := []
  nBlocksInFlight : Int := 0
  nStallingSince : Int := 0

/-- What is recorded of the blocks in flight. `nPlaces` is the number of list elements that were
made. -/
structure BlocksInFlight where
  mapNodeState : AList fun _ : Int => CNodeState := ∅
  mapBlocksInFlight : AList fun _ : UInt256 => Int × ℕ := ∅
  nQueuedValidatedHeaders : Int := 0
  nPlaces : ℕ := 0

/-- A number that is 1 for `true`. -/
def boolToInt (flag : Bool) : Int := if flag then 1 else 0

namespace CNodeState

def nValidated (state : CNodeState) : Int :=
  (state.vBlocksInFlight.map fun entry => boolToInt entry.fValidatedHeaders).sum

def dequeue (place : ℕ) (state : CNodeState) : CNodeState :=
  { vBlocksInFlight := state.vBlocksInFlight.filter fun entry => entry.place ≠ place
    nBlocksInFlight := state.nBlocksInFlight - 1
    nStallingSince := 0 }

def enqueue (entry : QueuedBlock) (state : CNodeState) : CNodeState :=
  { state with
    vBlocksInFlight := state.vBlocksInFlight ++ [entry]
    nBlocksInFlight := state.nBlocksInFlight + 1 }

end CNodeState

namespace BlocksInFlight

variable (net : BlocksInFlight)

def initializeNode (nodeid : Int) : BlocksInFlight :=
  match net.mapNodeState.lookup nodeid with
  | some _ => net
  | none => { net with mapNodeState := net.mapNodeState.insert nodeid {} }

/-- `FinalizeNode`. The node has to be known. -/
def finalizeNode (nodeid : Int) : Option BlocksInFlight :=
  match net.mapNodeState.lookup nodeid with
  | none => none
  | some state => some { net with
      mapBlocksInFlight := state.vBlocksInFlight.foldl (fun map entry => map.erase entry.hash)
        net.mapBlocksInFlight
      mapNodeState := net.mapNodeState.erase nodeid }

/-- `MarkBlockAsReceived`. It fails where an iterator or a node state is not valid any more. -/
def markBlockAsReceived (hash : UInt256) : Option BlocksInFlight :=
  match net.mapBlocksInFlight.lookup hash with
  | none => some net
  | some (nodeid, place) =>
    match net.mapNodeState.lookup nodeid with
    | none => none
    | some state =>
      match state.vBlocksInFlight.find? fun entry => entry.place = place with
      | none => none
      | some entry => some { net with
          nQueuedValidatedHeaders := net.nQueuedValidatedHeaders - boolToInt entry.fValidatedHeaders
          mapNodeState := net.mapNodeState.insert nodeid (state.dequeue place)
          mapBlocksInFlight := net.mapBlocksInFlight.erase hash }

def enqueueBlock (nodeid : Int) (hash : UInt256) (pindex : Option UInt256) (nTime : Int)
    (net : BlocksInFlight) : Option BlocksInFlight :=
  match net.mapNodeState.lookup nodeid with
  | none => none
  | some state =>
    let newentry : QueuedBlock :=
      ⟨net.nPlaces, hash, pindex, nTime, net.nQueuedValidatedHeaders, pindex.isSome⟩
    some
      { nQueuedValidatedHeaders :=
          net.nQueuedValidatedHeaders + boolToInt newentry.fValidatedHeaders
        mapNodeState := net.mapNodeState.insert nodeid (state.enqueue newentry)
        mapBlocksInFlight := net.mapBlocksInFlight.insert hash (nodeid, net.nPlaces)
        nPlaces := net.nPlaces + 1 }

/-- `MarkBlockAsInFlight`. An assertion fails if the node is not known. -/
def markBlockAsInFlight (nodeid : Int) (hash : UInt256) (pindex : Option UInt256) (nTime : Int) :
    Option BlocksInFlight :=
  match net.mapNodeState.lookup nodeid with
  | none => none
  | some _ => (net.markBlockAsReceived hash).bind (enqueueBlock nodeid hash pindex nTime)

end BlocksInFlight

inductive InFlightAction where
  | initializeNode (nodeid : Int)
  | finalizeNode (nodeid : Int)
  | markBlockAsInFlight (nodeid : Int) (hash : UInt256) (pindex : Option UInt256) (nTime : Int)
  | markBlockAsReceived (hash : UInt256)

def BlocksInFlight.step : InFlightAction → BlocksInFlight → Option BlocksInFlight
  | .initializeNode nodeid, net => some (net.initializeNode nodeid)
  | .finalizeNode nodeid, net => net.finalizeNode nodeid
  | .markBlockAsInFlight nodeid hash pindex nTime, net =>
    net.markBlockAsInFlight nodeid hash pindex nTime
  | .markBlockAsReceived hash, net => net.markBlockAsReceived hash

namespace BlocksInFlight

/-- The lengths and the map agree with the queues: there is one entry for each queued block, which
points at it. -/
structure Entered (net : BlocksInFlight) : Prop where
  counted : ∀ nodeid state, net.mapNodeState.lookup nodeid = some state →
    state.nBlocksInFlight = state.vBlocksInFlight.length
  once : ∀ nodeid state, net.mapNodeState.lookup nodeid = some state →
    (state.vBlocksInFlight.map QueuedBlock.hash).Nodup
  pointing : ∀ hash nodeid place, net.mapBlocksInFlight.lookup hash = some (nodeid, place) ↔
    ∃ state, net.mapNodeState.lookup nodeid = some state ∧
      ∃ entry ∈ state.vBlocksInFlight, entry.hash = hash ∧ entry.place = place

/-- The counters and the map agree with the queues. -/
structure Booked (net : BlocksInFlight) : Prop extends Entered net where
  validated : net.nQueuedValidatedHeaders = KeyedMap.total CNodeState.nValidated net.mapNodeState

def Quiet (net : BlocksInFlight) : InFlightAction → Prop
  | .finalizeNode nodeid => ∀ state, net.mapNodeState.lookup nodeid = some state →
      ∀ entry ∈ state.vBlocksInFlight, entry.fValidatedHeaders = false
  | _ => True

end BlocksInFlight

end DogeCash
