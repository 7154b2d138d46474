import DogeCash.Chain.Linking
import DogeCash.Chain.Paths

/-! # Planning the download of blocks

`FindNextBlocksToDownload` walks from the last block that we have in common with a peer towards
the best block the peer is known to have. The walk goes in batches and stops at an invalid block,
when enough blocks were found or behind a window of heights; on the way the last common block
moves up over the blocks that have all data.
-/

namespace DogeCash

/-- `BLOCK_DOWNLOAD_WINDOW` -/
def blockDownloadWindow : ℕ := 1024

/-- The fields of `CNodeState` on the blocks that a peer has. No hash is zero. -/
structure PeerBlocks (Ptr : Type) where
  pindexBestKnownBlock : Option Ptr := none
  hashLastUnknownBlock : Option Ptr := none
  pindexLastCommonBlock : Option Ptr := none

/-- What the walk has found so far. Of the peers that are waited for, -1 is none. -/
structure Fetching (Ptr : Type) where
  pindexLastCommonBlock : Ptr
  vBlocks : List Ptr
  waitingfor : Int
  nodeStaller : Int

namespace BlockIndex

variable {Ptr : Type} [LinearOrder Ptr] (s : BlockIndex Ptr)

/-- A block becomes the best known one of a peer if it has at least as much work. -/
def improve (b : Ptr) (state : PeerBlocks Ptr) : PeerBlocks Ptr :=
  match state.pindexBestKnownBlock with
  | none => { state with pindexBestKnownBlock := some b }
  | some best =>
    if s.tree.nChainWork best ≤ s.tree.nChainWork b then
      { state with pindexBestKnownBlock := some b }
    else state

def processBlockAvailability (state : PeerBlocks Ptr) : PeerBlocks Ptr :=
  match state.hashLastUnknownBlock with
  | none => state
  | some hash =>
    if hash ∈ s.tree.blocks ∧ 0 < s.tree.nChainWork hash then
      { s.improve hash state with hashLastUnknownBlock := none }
    else state

variable (mapBlocksInFlight : Ptr → Option ℕ) (nodeid count nWindowEnd : ℕ)

/-- One round of the walk; an error where the function returns. -/
def visit (fetching : Fetching Ptr) (pindex : Ptr) : Except (Fetching Ptr) (Fetching Ptr) :=
  if !(s.marks pindex).isValid .tree then .error fetching
  else if (s.marks pindex).haveData then
    .ok (if (s.marks pindex).nChainTx ≠ 0 then { fetching with pindexLastCommonBlock := pindex }
      else fetching)
  else
    match mapBlocksInFlight pindex with
    | none =>
      if nWindowEnd < s.tree.nHeight pindex then
        .error (if fetching.vBlocks.length = 0 ∧ fetching.waitingfor ≠ nodeid then
          { fetching with nodeStaller := fetching.waitingfor } else fetching)
      else if fetching.vBlocks.length + 1 = count then
        .error { fetching with vBlocks := fetching.vBlocks ++ [pindex] }
      else .ok { fetching with vBlocks := fetching.vBlocks ++ [pindex] }
    | some holder =>
      .ok (if fetching.waitingfor = -1 then { fetching with waitingfor := holder }
        else fetching)

/-- The loop that fills `vToFetch` from its end; `none` where a pointer is null. -/
def fillBack (s : BlockIndex Ptr) : ℕ → Ptr → List Ptr → Option (List Ptr)
  | 0, _, vToFetch => some vToFetch
  | n + 1, pindex, vToFetch =>
    (s.tree.pprev pindex).bind fun pprev => fillBack s n pprev (pprev :: vToFetch)

def outcome : Except (Fetching Ptr) (Fetching Ptr) → Fetching Ptr
  | .error fetching => fetching
  | .ok fetching => fetching

/-- The batches of the walk up to `nMaxHeight`; `none` where a pointer is null or the number of
rounds was not enough. -/
def fetchLoop (best : Ptr) (nMaxHeight : ℕ) : ℕ → Ptr → Fetching Ptr → Option (Fetching Ptr)
  | 0, _, _ => none
  | n + 1, pindexWalk, fetching =>
    if s.tree.nHeight pindexWalk < nMaxHeight then
      let nToFetch := min (nMaxHeight - s.tree.nHeight pindexWalk)
        (max (count - fetching.vBlocks.length) 128)
      (s.tree.getAncestor best (s.tree.nHeight pindexWalk + nToFetch)).bind fun pindexWalk =>
        (fillBack s (nToFetch - 1) pindexWalk [pindexWalk]).bind fun vToFetch =>
          match vToFetch.foldlM (s.visit mapBlocksInFlight nodeid count nWindowEnd) fetching with
          | .error fetching => some fetching
          | .ok fetching => fetchLoop best nMaxHeight n pindexWalk fetching
    else some fetching

/-- The block from which the last common block is looked for: the previous one, or the guess for
the first time. -/
def lastCommonGuess (best : Ptr) (state : PeerBlocks Ptr) : Option Ptr :=
  match state.pindexLastCommonBlock with
  | some last => some last
  | none => s.tree.getAncestor s.tip (min (s.tree.nHeight best) (s.tree.nHeight s.tip))

def fetchFrom (best last : Ptr) (vBlocks : List Ptr) (nodeStaller : Int) : Option (Fetching Ptr) :=
  if last = best then some ⟨last, vBlocks, -1, nodeStaller⟩
  else
    let nWindowEnd := s.tree.nHeight last + blockDownloadWindow
    let nMaxHeight := min (s.tree.nHeight best) (nWindowEnd + 1)
    s.fetchLoop mapBlocksInFlight nodeid count nWindowEnd best nMaxHeight (nMaxHeight + 1) last
      ⟨last, vBlocks, -1, nodeStaller⟩

/-- `FindNextBlocksToDownload`: the state of the peer, `vBlocks` and `nodeStaller` afterwards;
`none` where a pointer is null or an assertion fails. -/
def findNextBlocksToDownload (vBlocks : List Ptr) (nodeStaller : Int) (state : PeerBlocks Ptr) :
    Option (PeerBlocks Ptr × List Ptr × Int) :=
  if count = 0 then some (state, vBlocks, nodeStaller)
  else
    let state := s.processBlockAvailability state
    match state.pindexBestKnownBlock with
    | none => some (state, vBlocks, nodeStaller)
    | some best =>
      if s.tree.nChainWork best < s.tree.nChainWork s.tip then some (state, vBlocks, nodeStaller)
      else
        (s.lastCommonGuess best state).bind fun guess =>
          (s.tree.lastCommonAncestor guess best).bind fun last =>
            (s.fetchFrom mapBlocksInFlight nodeid count best last vBlocks nodeStaller).map
              fun fetching =>
                ({ state with pindexLastCommonBlock := some fetching.pindexLastCommonBlock },
                  fetching.vBlocks, fetching.nodeStaller)

end BlockIndex

end DogeCash
