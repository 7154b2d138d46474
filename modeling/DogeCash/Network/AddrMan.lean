import DogeCash.Foundation.KeyedMap
import DogeCash.Masternode.Collateral

/-! # The address manager

`CAddrMan` keeps each address under an id, in one of two tables of buckets: the `new`
table, where an address may have several places, and the `tried` table, where it has one.
Besides there are the map from the addresses to the ids and a vector with the ids in a random
order, in which an entry knows its position.

An operation returns `none` where an assertion of the source fails. References into `mapInfo`
are read and written where they stand. The random numbers are arguments: `GetRandInt` takes
any number modulo its limit.
-/

namespace DogeCash

/-- `CNetAddr`, the bytes of `ip`. -/
abbrev CNetAddr := List UInt8

/-- `ADDRMAN_TRIED_BUCKET_COUNT` -/
abbrev triedBucketCount : ℕ := 256

/-- `ADDRMAN_NEW_BUCKET_COUNT` -/
abbrev newBucketCount : ℕ := 1024

instance neZero_newBucketCount : NeZero newBucketCount := ⟨by decide⟩

/-- `ADDRMAN_BUCKET_SIZE` -/
abbrev bucketSize : ℕ := 64

/-- `ADDRMAN_NEW_BUCKETS_PER_ADDRESS` -/
def newBucketsPerAddress : Int := 8

structure CAddress where
  service : CService := ⟨List.replicate 16 0, 0⟩
  nServices : UInt64 := 1
  nTime : UInt32 := 100000000

structure CAddrInfo extends CAddress where
  source : CNetAddr := List.replicate 16 0
  nLastTry : Int := 0
  nLastSuccess : Int := 0
  nAttempts : Int := 0
  nRefCount : Int := 0
  fInTried : Bool := false
  nRandomPos : Int := -1

/-- The key of an entry in `mapAddr`. -/
def CAddress.netAddr (addr : CAddress) : CNetAddr := addr.service.ip

def CService.getKey (service : CService) : List UInt8 :=
  service.ip ++ [(service.port / 0x100).toUInt8, (service.port &&& 0xff).toUInt8]

/-- What is written to the hasher of a bucket. -/
inductive HashItem where
  | key (nKey : UInt256)
  | bytes (data : List UInt8)
  | number (value : UInt64)
  | letter (value : UInt8)
  | bucket (nBucket : ℕ)

/-- What the address manager takes from elsewhere. -/
structure AddrEnv where
  /-- `GetHash().GetLow64()` of what was written. -/
  getLow64 : List HashItem → UInt64
  getGroup : CNetAddr → List UInt8
  isRoutable : CNetAddr → Bool

abbrev TriedPlace := Fin triedBucketCount × Fin bucketSize

abbrev NewPlace := Fin newBucketCount × Fin bucketSize

namespace CAddrInfo

section Buckets

variable (env : AddrEnv) (nKey : UInt256) (info : CAddrInfo)

def getTriedBucket : Fin triedBucketCount :=
  let hash1 := env.getLow64 [.key nKey, .bytes info.service.getKey]
  let hash2 := env.getLow64 [.key nKey, .bytes (env.getGroup info.netAddr), .number (hash1 % 8)]
  Fin.ofNat triedBucketCount hash2.toNat

def getNewBucket (src : CNetAddr) : Fin newBucketCount :=
  let vchSourceGroupKey := env.getGroup src
  let hash1 := env.getLow64 [.key nKey, .bytes (env.getGroup info.netAddr),
    .bytes vchSourceGroupKey]
  let hash2 := env.getLow64 [.key nKey, .bytes vchSourceGroupKey, .number (hash1 % 64)]
  Fin.ofNat newBucketCount hash2.toNat

/-- `GetBucketPosition`, with the letter for `fNew`. -/
def getBucketPosition (fNew : Bool) (nBucket : ℕ) : Fin bucketSize :=
  let hash1 := env.getLow64 [.key nKey, .letter (if fNew then 0x4e else 0x4b), .bucket nBucket,
    .bytes info.service.getKey]
  Fin.ofNat bucketSize hash1.toNat

def triedPlace : TriedPlace :=
  let nKBucket := info.getTriedBucket env nKey
  (nKBucket, info.getBucketPosition env nKey false nKBucket)

def newPlace (nUBucket : Fin newBucketCount) : NewPlace :=
  (nUBucket, info.getBucketPosition env nKey true nUBucket)

end Buckets

def isTerrible (info : CAddrInfo) (nNow : Int) : Bool :=
  let nTime : Int := info.nTime.toNat
  if info.nLastTry ≠ 0 ∧ info.nLastTry ≥ nNow - 60 then false
  else if nTime > nNow + 10 * 60 then true
  else if nTime = 0 ∨ nNow - nTime > 30 * 24 * 60 * 60 then true
  else if info.nLastSuccess = 0 ∧ info.nAttempts ≥ 3 then true
  else if nNow - info.nLastSuccess > 7 * 24 * 60 * 60 ∧ info.nAttempts ≥ 10 then true
  else false

end CAddrInfo

/-- `CAddrMan`. An empty place of a table holds -1. -/
structure CAddrMan where
  nKey : UInt256
  nIdCount : Int
  mapInfo : AList fun _ : Int => CAddrInfo
  mapAddr : CNetAddr → Option Int
  vRandom : List Int
  nTried : Int
  vvTried : TriedPlace → Int
  nNew : Int
  vvNew : NewPlace → Int

/-- A number converted to `unsigned int`. -/
def toUnsigned (number : Int) : ℕ := (number % 2 ^ 32).toNat

/-- A number stored in a field of type `unsigned int`. -/
def toUInt32 (number : Int) : UInt32 := .ofNat (toUnsigned number)

namespace CAddrMan

/-- `Clear`. It leaves `mapInfo` and `mapAddr` alone. -/
def clear (nKey : UInt256) (man : CAddrMan) : CAddrMan :=
  { man with
    vRandom := []
    nKey := nKey
    vvNew := fun _ => -1
    vvTried := fun _ => -1
    nIdCount := 0
    nTried := 0
    nNew := 0 }

/-- The constructor of `CAddrMan`: both maps are empty. -/
def construct (nKey : UInt256) : CAddrMan where
  nKey := nKey
  nIdCount := 0
  mapInfo := ∅
  mapAddr _ := none
  vRandom := []
  nTried := 0
  vvTried _ := -1
  nNew := 0
  vvNew _ := -1

/-- `mapInfo[nId]`: a missing entry is a default one. -/
def info (man : CAddrMan) (nId : Int) : CAddrInfo := (man.mapInfo.lookup nId).getD {}

/-- Write to `mapInfo[nId]`. -/
def modifyInfo (nId : Int) (change : CAddrInfo → CAddrInfo) (man : CAddrMan) : CAddrMan :=
  { man with mapInfo := man.mapInfo.insert nId (change (man.info nId)) }

def setNew (place : NewPlace) (nId : Int) (man : CAddrMan) : CAddrMan :=
  { man with vvNew := Function.update man.vvNew place nId }

def setTried (place : TriedPlace) (nId : Int) (man : CAddrMan) : CAddrMan :=
  { man with vvTried := Function.update man.vvTried place nId }

/-- `Find`, with the id. -/
def find (man : CAddrMan) (addr : CNetAddr) : Option (Int × CAddrInfo) :=
  (man.mapAddr addr).bind fun nId => (man.mapInfo.lookup nId).map fun info => (nId, info)

/-- `Create`. The id is the count before. -/
def create (addr : CAddress) (addrSource : CNetAddr) (man : CAddrMan) : CAddrMan :=
  let nId := man.nIdCount
  { man with
    nIdCount := man.nIdCount + 1
    mapInfo := man.mapInfo.insert nId
      { addr with source := addrSource, nRandomPos := man.vRandom.length }
    mapAddr := Function.update man.mapAddr addr.netAddr (some nId)
    vRandom := man.vRandom ++ [nId] }

def swapRandom (nRndPos1 nRndPos2 : ℕ) (man : CAddrMan) : Option CAddrMan :=
  if nRndPos1 = nRndPos2 then some man
  else
    match man.vRandom[nRndPos1]?, man.vRandom[nRndPos2]? with
    | some nId1, some nId2 =>
      if nId1 ∈ man.mapInfo ∧ nId2 ∈ man.mapInfo then
        let man := man.modifyInfo nId1 fun info => { info with nRandomPos := nRndPos2 }
        let man := man.modifyInfo nId2 fun info => { info with nRandomPos := nRndPos1 }
        some { man with vRandom := (man.vRandom.set nRndPos1 nId2).set nRndPos2 nId1 }
      else none
    | _, _ => none

def delete (nId : Int) (man : CAddrMan) : Option CAddrMan :=
  match man.mapInfo.lookup nId with
  | none => none
  | some info =>
    if info.fInTried ∨ info.nRefCount ≠ 0 then none
    else
      (man.swapRandom (toUnsigned info.nRandomPos) (toUnsigned (man.vRandom.length - 1))).map
        fun man => { man with
          vRandom := man.vRandom.dropLast
          mapAddr := Function.update man.mapAddr info.netAddr none
          mapInfo := man.mapInfo.erase nId
          nNew := man.nNew - 1 }

def clearNew (place : NewPlace) (man : CAddrMan) : Option CAddrMan :=
  let nIdDelete := man.vvNew place
  if nIdDelete = -1 then some man
  else if (man.info nIdDelete).nRefCount ≤ 0 then none
  else
    let man := man.modifyInfo nIdDelete fun info => { info with nRefCount := info.nRefCount - 1 }
    let man := man.setNew place (-1)
    if (man.info nIdDelete).nRefCount = 0 then man.delete nIdDelete else some man

section Tables

variable (env : AddrEnv)

/-- One round of the first loop of `MakeTried`. -/
def dropRef (nId : Int) (bucket : Fin newBucketCount) (man : CAddrMan) : CAddrMan :=
  let place := (man.info nId).newPlace env man.nKey bucket
  if man.vvNew place = nId then
    (man.setNew place (-1)).modifyInfo nId fun info => { info with nRefCount := info.nRefCount - 1 }
  else man

/-- The first loop of `MakeTried`. -/
def dropRefs (nId : Int) (man : CAddrMan) : CAddrMan :=
  (List.finRange newBucketCount).foldl (fun man bucket => man.dropRef env nId bucket) man

def uncount (man : CAddrMan) : CAddrMan := { man with nNew := man.nNew - 1 }

def leaveTried (place : TriedPlace) (nId : Int) (man : CAddrMan) : CAddrMan :=
  { (man.modifyInfo nId fun info => { info with fInTried := false }).setTried place (-1) with
    nTried := man.nTried - 1 }

def returnToNew (place : NewPlace) (nId : Int) (man : CAddrMan) : CAddrMan :=
  { (man.modifyInfo nId fun info => { info with nRefCount := 1 }).setNew place nId with
    nNew := man.nNew + 1 }

/-- The entry that `MakeTried` finds at the place is moved to the new table. -/
def evict (place : TriedPlace) (nIdEvict : Int) (man : CAddrMan) : Option CAddrMan :=
  if nIdEvict ∉ man.mapInfo then none
  else
    let man := man.leaveTried place nIdEvict
    let infoOld := man.info nIdEvict
    let place := infoOld.newPlace env man.nKey
      (infoOld.getNewBucket env man.nKey infoOld.source)
    (man.clearNew place).bind fun man =>
      if man.vvNew place ≠ -1 then none else some (man.returnToNew place nIdEvict)

def makeSpace (place : TriedPlace) (man : CAddrMan) : Option CAddrMan :=
  if man.vvTried place ≠ -1 then man.evict env place (man.vvTried place) else some man

def enterTried (place : TriedPlace) (nId : Int) (man : CAddrMan) : CAddrMan :=
  { (man.modifyInfo nId fun info => { info with fInTried := true }).setTried place nId with
    nTried := man.nTried + 1 }

def makeTried (nId : Int) (man : CAddrMan) : Option CAddrMan :=
  let man := (man.dropRefs env nId).uncount
  if (man.info nId).nRefCount ≠ 0 then none
  else
    let place := (man.info nId).triedPlace env man.nKey
    (man.makeSpace env place).bind fun man =>
      if man.vvTried place ≠ -1 then none else some (man.enterTried place nId)

/-- The loop of `Good_`: a bucket of the new table that has the entry, from a random one on. -/
def bucketOf (nId : Int) (nRnd : ℕ) (man : CAddrMan) : Option (Fin newBucketCount) :=
  ((List.range newBucketCount).map fun n =>
    Fin.ofNat newBucketCount (n + nRnd % newBucketCount)).find? fun nB =>
      man.vvNew ((man.info nId).newPlace env man.nKey nB) == nId

/-- `Good_` -/
def good (addr : CService) (nTime : Int) (nRnd : ℕ) (man : CAddrMan) : Option CAddrMan :=
  match man.find addr.ip with
  | none => some man
  | some (nId, info) =>
    if info.service ≠ addr then some man
    else
      let man := man.modifyInfo nId fun info =>
        { info with nLastSuccess := nTime, nLastTry := nTime, nAttempts := 0 }
      if info.fInTried then some man
      else if (man.bucketOf env nId nRnd).isNone then some man
      else man.makeTried env nId

/-- What `Add_` changes of an entry that is known. -/
def refreshed (addr : CAddress) (nTimePenalty nNow : Int) (info : CAddrInfo) : CAddrInfo :=
  let seen : Int := addr.nTime.toNat
  let nUpdateInterval : Int := if nNow - seen < 24 * 60 * 60 then 60 * 60 else 24 * 60 * 60
  { info with
    nTime :=
      if seen ≠ 0 ∧ (info.nTime = 0 ∨
          (info.nTime.toNat : Int) < seen - nUpdateInterval - nTimePenalty) then
        toUInt32 (max 0 (seen - nTimePenalty))
      else info.nTime
    nServices := info.nServices ||| addr.nServices }

/-- `Add_` stops at an entry that is known, after it was refreshed. -/
def stopsAt (addr : CAddress) (nRnd : ℕ) (info : CAddrInfo) : Bool :=
  addr.nTime = 0 ∨ (info.nTime ≠ 0 ∧ addr.nTime ≤ info.nTime) ∨ info.fInTried ∨
    info.nRefCount = newBucketsPerAddress ∨
    (2 ^ info.nRefCount.toNat > 1 ∧ nRnd % 2 ^ info.nRefCount.toNat ≠ 0)

/-- The second half of `Add_`: the entry is entered in the new table. -/
def enter (source : CNetAddr) (nId nLater : Int) (man : CAddrMan) : Option CAddrMan :=
  let place := (man.info nId).newPlace env man.nKey
    ((man.info nId).getNewBucket env man.nKey source)
  if man.vvNew place = nId then some man
  else if man.vvNew place = -1 ∨ (man.info (man.vvNew place)).isTerrible nLater ∨
      ((man.info (man.vvNew place)).nRefCount > 1 ∧ (man.info nId).nRefCount = 0) then
    (man.clearNew place).map fun man =>
      (man.modifyInfo nId fun info => { info with nRefCount := info.nRefCount + 1 }).setNew
        place nId
  else if (man.info nId).nRefCount = 0 then man.delete nId
  else some man

/-- A new entry in `Add_`. -/
def createNew (addr : CAddress) (source : CNetAddr) (nTimePenalty : Int) (man : CAddrMan) :
    CAddrMan :=
  let nId := man.nIdCount
  let man := (man.create addr source).modifyInfo nId fun info =>
    { info with nTime := toUInt32 (max 0 (info.nTime.toNat - nTimePenalty)) }
  { man with nNew := man.nNew + 1 }

/-- `Add_`, with the two times it asks for. -/
def add (addr : CAddress) (source : CNetAddr) (nTimePenalty nNow nLater : Int) (nRnd : ℕ)
    (man : CAddrMan) : Option (CAddrMan × Bool) :=
  if !env.isRoutable addr.netAddr then some (man, false)
  else
    match man.find addr.netAddr with
    | some (nId, _) =>
      let man := man.modifyInfo nId (refreshed addr nTimePenalty nNow)
      if stopsAt addr nRnd (man.info nId) then some (man, false)
      else (man.enter env source nId nLater).map (·, false)
    | none =>
      ((man.createNew addr source nTimePenalty).enter env source man.nIdCount nLater).map
        (·, true)

end Tables

/-- `Attempt_` -/
def attempt (addr : CService) (nTime : Int) (man : CAddrMan) : CAddrMan :=
  match man.find addr.ip with
  | none => man
  | some (nId, info) =>
    if info.service ≠ addr then man
    else man.modifyInfo nId fun info =>
      { info with nLastTry := nTime, nAttempts := info.nAttempts + 1 }

/-- `Connected_` -/
def connected (addr : CService) (nTime : Int) (man : CAddrMan) : CAddrMan :=
  match man.find addr.ip with
  | none => man
  | some (nId, info) =>
    if info.service ≠ addr then man
    else if nTime - (info.nTime.toNat : Int) > 20 * 60 then
      man.modifyInfo nId fun info => { info with nTime := toUInt32 nTime }
    else man

/-- The loop of `GetAddr_`, with the number of rounds that are left. -/
def gather (nNodes : ℕ) (nNow : ℕ → Int) (nRnd : ℕ → ℕ) :
    ℕ → ℕ → List CAddress → CAddrMan → Option (CAddrMan × List CAddress)
  | 0, _, vAddr, man => some (man, vAddr)
  | rounds + 1, n, vAddr, man =>
    if vAddr.length ≥ nNodes then some (man, vAddr)
    else
      (man.swapRandom n (nRnd n % (man.vRandom.length - n) + n)).bind fun man =>
        match man.vRandom[n]? with
        | none => none
        | some nId =>
          if nId ∉ man.mapInfo then none
          else
            let ai := man.info nId
            gather nNodes nNow nRnd rounds (n + 1)
              (if ai.isTerrible (nNow n) then vAddr else vAddr ++ [ai.toCAddress]) man

/-- `GetAddr_` -/
def getAddr (nNow : ℕ → Int) (nRnd : ℕ → ℕ) (vAddr : List CAddress) (man : CAddrMan) :
    Option (CAddrMan × List CAddress) :=
  man.gather (min (23 * man.vRandom.length / 100) 2500) nNow nRnd man.vRandom.length 0 vAddr

/-! ## What is written to the disk -/

/-- What `Serialize` writes after the version byte and the size of the key. -/
structure Written where
  nKey : UInt256
  nNew : Int
  nTried : Int
  nUBuckets : Int
  newInfos : List CAddrInfo
  triedInfos : List CAddrInfo
  /-- For each bucket the indices of its elements. -/
  buckets : List (List Int)

def sortedInfos (man : CAddrMan) : List (Sigma fun _ : Int => CAddrInfo) :=
  man.mapInfo.entries.insertionSort fun first second => first.1 ≤ second.1

/-- A loop of `Serialize` over the entries: it writes those that a test picks, and asserts
before each that there are fewer than `limit`. -/
def writeInfos (picks : CAddrInfo → Bool) (limit : Int) :
    Int → List (Sigma fun _ : Int => CAddrInfo) → Option (List CAddrInfo)
  | _, [] => some []
  | nIds, entry :: rest =>
    if picks entry.2 then
      if nIds = limit then none
      else (writeInfos picks limit (nIds + 1) rest).map (entry.2 :: ·)
    else writeInfos picks limit nIds rest

/-- `mapUnkIds[nId]`: how many entries in the new table come before. -/
def unkId (man : CAddrMan) (nId : Int) : Int :=
  if nId ∈ man.mapInfo then
    ((man.sortedInfos.takeWhile fun entry => entry.1 ≠ nId).countP fun entry =>
      entry.2.nRefCount ≠ 0 : ℕ)
  else 0

def serialize (man : CAddrMan) : Option Written :=
  (writeInfos (fun info => info.nRefCount ≠ 0) man.nNew 0 man.sortedInfos).bind fun newInfos =>
    (writeInfos CAddrInfo.fInTried man.nTried 0 man.sortedInfos).map fun triedInfos =>
      { nKey := man.nKey
        nNew := man.nNew
        nTried := man.nTried
        nUBuckets := 1024 + 2 ^ 30
        newInfos := newInfos
        triedInfos := triedInfos
        buckets := (List.finRange newBucketCount).map fun bucket =>
          (((List.finRange bucketSize).map fun i => man.vvNew (bucket, i)).filter
            (· ≠ -1)).map man.unkId }

end CAddrMan

/-! ## Steps -/

/-- A call of the address manager, with the times it asks for and the random numbers. -/
inductive AddrManAction where
  | add (addr : CAddress) (source : CNetAddr) (nTimePenalty nNow nLater : Int) (nRnd : ℕ)
  | good (addr : CService) (nTime : Int) (nRnd : ℕ)
  | attempt (addr : CService) (nTime : Int)
  | connected (addr : CService) (nTime : Int)
  | getAddr (nNow : ℕ → Int) (nRnd : ℕ → ℕ) (vAddr : List CAddress)
  | clear (nKey : UInt256)

/-- A call. `none` stands for an assertion that fails. -/
def AddrEnv.step (env : AddrEnv) : AddrManAction → CAddrMan → Option CAddrMan
  | .add addr source nTimePenalty nNow nLater nRnd, man =>
    (man.add env addr source nTimePenalty nNow nLater nRnd).map Prod.fst
  | .good addr nTime nRnd, man => man.good env addr nTime nRnd
  | .attempt addr nTime, man => some (man.attempt addr nTime)
  | .connected addr nTime, man => some (man.connected addr nTime)
  | .getAddr nNow nRnd vAddr, man => (man.getAddr nNow nRnd vAddr).map Prod.fst
  | .clear nKey, man => some (man.clear nKey)

end DogeCash
