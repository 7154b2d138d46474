import DogeCash.Chain.DiskBlockIndex
import DogeCash.Network.AddrMan

/-! # The file of the address manager

The bytes of what `CAddrMan::Serialize` writes to the disk, and `Unserialize`. The entries are
written in two lists and get their ids anew, by their numbers in the lists. Only the buckets of the
new table are written, as numbers of entries; the rest of the tables is computed again. The buckets
are used if the version and the count of the buckets are the ones of this program.
-/

namespace DogeCash

open Reader (number take rounds codes_number codes_take)

/-- A number of type `int`, as it is written. -/
def serializeInt32 (n : Int) : List UInt8 := LittleEndian.bytes 4 (n % 2 ^ 32).toNat

/-- `Unserialize` of a number of type `int`. -/
def unserializeInt32 : Reader UInt8 Int :=
  (fun n : ℕ => (n : Int).bmod (2 ^ 32)) <$> number 4

/-- `CService::SerializationOp`: the port has its high byte first. -/
def CService.serialize (service : CService) : List UInt8 :=
  service.ip ++ (LittleEndian.bytes 1 (service.port.toNat / 0x100) ++
    LittleEndian.bytes 1 (service.port.toNat % 0x100))

/-- `CAddress::SerializationOp` to the disk. -/
def CAddress.serialize (addr : CAddress) : List UInt8 :=
  serializeInt32 clientVersion ++ (LittleEndian.bytes 4 addr.nTime.toNat ++
    (LittleEndian.bytes 8 addr.nServices.toNat ++ addr.service.serialize))

/-- `CAddrInfo::SerializationOp` -/
def CAddrInfo.serialize (info : CAddrInfo) : List UInt8 :=
  info.toCAddress.serialize ++ (info.source ++
    (LittleEndian.bytes 8 (info.nLastSuccess % 2 ^ 64).toNat ++ serializeInt32 info.nAttempts))

def serializeBucket (bucket : List Int) : List UInt8 :=
  serializeInt32 bucket.length ++ bucket.flatMap serializeInt32

/-- The bytes of what is written. -/
def CAddrMan.Written.bytes (written : CAddrMan.Written) : List UInt8 :=
  LittleEndian.bytes 1 1 ++ (LittleEndian.bytes 1 32 ++ (UInt256.serialize written.nKey ++
    (serializeInt32 written.nNew ++ (serializeInt32 written.nTried ++
      (serializeInt32 written.nUBuckets ++ (written.newInfos.flatMap CAddrInfo.serialize ++
        (written.triedInfos.flatMap CAddrInfo.serialize ++
          written.buckets.flatMap serializeBucket)))))))

/-- `CService::SerializationOp` -/
def CService.unserialize : Reader UInt8 CService := do
  let ip ← take 16
  let high ← number 1
  let low ← number 1
  pure ⟨ip, UInt16.ofNat (0x100 * high + low)⟩

/-- `CAddress::SerializationOp` from the disk. -/
def CAddress.unserialize : Reader UInt8 CAddress := do
  let _nVersion ← unserializeInt32
  let nTime ← UInt32.unserialize
  let nServices ← UInt64.unserialize
  let service ← CService.unserialize
  pure ⟨service, nServices, nTime⟩

/-- `CAddrInfo::SerializationOp`, into an entry that keeps its other fields. -/
def CAddrInfo.unserialize (info : CAddrInfo) : Reader UInt8 CAddrInfo := do
  let addr ← CAddress.unserialize
  let source ← take 16
  let nLastSuccess ← unserializeInt64
  let nAttempts ← unserializeInt32
  pure { info with toCAddress := addr, source, nLastSuccess, nAttempts }

namespace CAddrMan

section Rounds

variable (env : AddrEnv)

def knownFormat (nVersion : ℕ) (nUBuckets : Int) : Bool :=
  nVersion == 1 && nUBuckets == newBucketCount

/-- An entry of the new table is put in after it was read. -/
def loadNew (known : Bool) (n : ℕ) (info : CAddrInfo) (man : CAddrMan) : CAddrMan :=
  let info := { info with nRandomPos := man.vRandom.length }
  let place := info.newPlace env man.nKey (info.getNewBucket env man.nKey info.source)
  let man := { man with
    mapInfo := man.mapInfo.insert n info
    mapAddr := Function.update man.mapAddr info.netAddr (some (n : Int))
    vRandom := man.vRandom ++ [(n : Int)] }
  if !known && man.vvNew place == -1 then
    (man.setNew place n).modifyInfo n fun info => { info with nRefCount := info.nRefCount + 1 }
  else man

/-- A round of the loop over the entries of the new table, which reads into `mapInfo[n]`. -/
def readNew (known : Bool) (n : ℕ) (man : CAddrMan) : Reader UInt8 CAddrMan := do
  let info ← (man.info n).unserialize
  pure (man.loadNew env known n info)

/-- An entry of the tried table is put in after it was read, unless its place is taken. -/
def loadTried (info : CAddrInfo) (state : CAddrMan × Int) : CAddrMan × Int :=
  let (man, nLost) := state
  let place := info.triedPlace env man.nKey
  if man.vvTried place = -1 then
    let info := { info with nRandomPos := man.vRandom.length, fInTried := true }
    ({ man with
      vRandom := man.vRandom ++ [man.nIdCount]
      mapInfo := man.mapInfo.insert man.nIdCount info
      mapAddr := Function.update man.mapAddr info.netAddr (some man.nIdCount)
      vvTried := Function.update man.vvTried place man.nIdCount
      nIdCount := man.nIdCount + 1 }, nLost)
  else (man, nLost + 1)

def readTried (_n : ℕ) (state : CAddrMan × Int) : Reader UInt8 (CAddrMan × Int) := do
  let info ← ({} : CAddrInfo).unserialize
  pure (loadTried env info state)

/-- An element of a bucket is put in its place after it was read. -/
def loadPlace (known : Bool) (bucket : ℕ) (nIndex : Int) (man : CAddrMan) : CAddrMan :=
  if 0 ≤ nIndex ∧ nIndex < man.nNew then
    let info := man.info nIndex
    let place := info.newPlace env man.nKey (Fin.ofNat newBucketCount bucket)
    if known = true ∧ man.vvNew place = -1 ∧ info.nRefCount < newBucketsPerAddress then
      (man.modifyInfo nIndex fun info => { info with nRefCount := info.nRefCount + 1 }).setNew
        place nIndex
    else man
  else man

/-- A round of the loop over the buckets. -/
def readBucket (known : Bool) (bucket : ℕ) (man : CAddrMan) : Reader UInt8 CAddrMan := do
  let nSize ← unserializeInt32
  rounds (fun _ man => do
    let nIndex ← unserializeInt32
    pure (man.loadPlace env known bucket nIndex)) nSize.toNat 0 man

end Rounds

/-- The loop that deletes the entries without a reference, in the order of their ids. -/
def prune (man : CAddrMan) : Option CAddrMan :=
  man.sortedInfos.foldlM (fun man entry =>
    if (man.info entry.1).fInTried = false ∧ (man.info entry.1).nRefCount = 0 then
      man.delete entry.1
    else some man) man

/-- What `Unserialize` does after the counts were read. -/
def readTables (env : AddrEnv) (known : Bool) (nUBuckets : Int) (man : CAddrMan) :
    Reader UInt8 CAddrMan := do
  let man ← rounds (readNew env known) man.nNew.toNat 0 man
  let state ← rounds (readTried env) man.nTried.toNat 0 ({ man with nIdCount := man.nNew }, 0)
  let man := { state.1 with nTried := state.1.nTried - state.2 }
  let man ← rounds (readBucket env known) nUBuckets.toNat 0 man
  StateT.lift man.prune

/-- `Unserialize`, with the random key that `Clear` draws. `none` where an exception is thrown or an
assertion fails. -/
def unserialize (env : AddrEnv) (randomKey : UInt256) (target : CAddrMan) :
    Reader UInt8 CAddrMan := do
  let nVersion ← number 1
  let nKeySize ← number 1
  if nKeySize ≠ 32 then failure
  let nKey ← UInt256.unserialize
  let nNew ← unserializeInt32
  let nTried ← unserializeInt32
  let nUBuckets ← Int32.unserialize
  let nUBuckets := (if nVersion ≠ 0 then nUBuckets ^^^ (1 : Int32) <<< 30 else nUBuckets).toInt
  readTables env (knownFormat nVersion nUBuckets) nUBuckets
    { target.clear randomKey with nKey, nNew, nTried }

end CAddrMan

/-! ## What is written is read back -/

theorem codes_unserializeInt32 :
    Codes unserializeInt32 serializeInt32 (fun n => -2 ^ 31 ≤ n ∧ n < 2 ^ 31) :=
  (codes_bmod (by decide)).congr (fun n => by omega) fun n _ => rfl

theorem CService.parses {service : CService} (ip : service.ip.length = 16) :
    Parses CService.unserialize service.serialize (some service) := by
  have bound := service.port.toNat_lt
  have port : UInt16.ofNat (0x100 * (service.port.toNat / 0x100) + service.port.toNat % 0x100) =
      service.port := by
    rw [Nat.div_add_mod, UInt16.ofNat_toNat]
  have last := ((codes_number 1).parses (a := service.port.toNat % 0x100) (by omega)).last
    fun low => CService.mk service.ip (UInt16.ofNat (0x100 * (service.port.toNat / 0x100) + low))
  rw [Option.map_some, port] at last
  exact ((codes_take 16).parses ip).bind
    (((codes_number 1).parses (by omega)).bind last)

theorem CAddress.parses {addr : CAddress} (ip : addr.service.ip.length = 16) :
    Parses CAddress.unserialize addr.serialize (some addr) :=
  (codes_unserializeInt32.parses (by decide)).bind ((UInt32.codes.parses trivial).bind
    ((UInt64.codes.parses trivial).bind ((CService.parses ip).last _)))

/-- The fields of an entry that are written fit the types that they have. -/
@[mk_iff]
structure CAddrInfo.Fits (info : CAddrInfo) : Prop where
  ip : info.service.ip.length = 16
  source : info.source.length = 16
  nLastSuccess : -2 ^ 63 ≤ info.nLastSuccess ∧ info.nLastSuccess < 2 ^ 63
  nAttempts : -2 ^ 31 ≤ info.nAttempts ∧ info.nAttempts < 2 ^ 31

instance CAddrInfo.Fits.decidable (info : CAddrInfo) : Decidable info.Fits :=
  decidable_of_iff _ (CAddrInfo.fits_iff info).symm

/-- What becomes of an entry when another one is read into it. -/
def CAddrInfo.absorb (info other : CAddrInfo) : CAddrInfo :=
  { info with
    toCAddress := other.toCAddress
    source := other.source
    nLastSuccess := other.nLastSuccess
    nAttempts := other.nAttempts }

theorem CAddrInfo.parses {other : CAddrInfo} (fits : other.Fits) (info : CAddrInfo) :
    Parses info.unserialize other.serialize (some (info.absorb other)) :=
  (CAddress.parses fits.ip).bind (((codes_take 16).parses fits.source).bind
    ((codes_unserializeInt64.parses fits.nLastSuccess).bind
      ((codes_unserializeInt32.parses fits.nAttempts).last _)))

namespace CAddrMan

/-- What is written has the form that is expected, with numbers that fit their types. -/
structure Written.Fits (written : Written) : Prop where
  nNew : written.nNew = written.newInfos.length ∧ written.nNew < 2 ^ 31
  nTried : written.nTried = written.triedInfos.length ∧ written.nTried < 2 ^ 31
  nUBuckets : written.nUBuckets = newBucketCount + 2 ^ 30
  newInfos : ∀ info ∈ written.newInfos, info.Fits
  triedInfos : ∀ info ∈ written.triedInfos, info.Fits
  buckets : written.buckets.length = newBucketCount
  sizes : ∀ bucket ∈ written.buckets, bucket.length < 2 ^ 31
  indices : ∀ bucket ∈ written.buckets, ∀ nIndex ∈ bucket, -2 ^ 31 ≤ nIndex ∧ nIndex < 2 ^ 31

section Reload

variable (env : AddrEnv) (written : Written)

def reloadNew (man : CAddrMan) : CAddrMan :=
  written.newInfos.zipIdx.foldl (fun man item =>
    man.loadNew env true item.2 ((man.info item.2).absorb item.1)) man

def reloadTried (man : CAddrMan) : CAddrMan × Int :=
  written.triedInfos.zipIdx.foldl (fun state item =>
    loadTried env (({} : CAddrInfo).absorb item.1) state) ({ man with nIdCount := man.nNew }, 0)

def reloadBucket (man : CAddrMan) (bucket : List Int × ℕ) : CAddrMan :=
  bucket.1.zipIdx.foldl (fun man item => man.loadPlace env true bucket.2 item.1) man

def reloadTables (man : CAddrMan) : CAddrMan :=
  let state := reloadTried env written (reloadNew env written man)
  written.buckets.zipIdx.foldl (reloadBucket env)
    { state.1 with nTried := state.1.nTried - state.2 }

/-- What `Unserialize` makes of what was written, before it prunes the entries. -/
def reload (randomKey : UInt256) (target : CAddrMan) : CAddrMan :=
  reloadTables env written { target.clear randomKey with
    nKey := written.nKey
    nNew := written.nNew
    nTried := written.nTried }

end Reload

theorem parses_readBucket {env : AddrEnv} {bucket : List Int} (size : bucket.length < 2 ^ 31)
    (indices : ∀ nIndex ∈ bucket, -2 ^ 31 ≤ nIndex ∧ nIndex < 2 ^ 31) (round : ℕ)
    (man : CAddrMan) :
    Parses (readBucket env true round man) (serializeBucket bucket)
      (some (reloadBucket env man (bucket, round))) := by
  have each : ∀ nIndex ∈ bucket, ∀ (_ : ℕ) (man : CAddrMan),
      Parses (unserializeInt32 >>= fun nIndex => pure (man.loadPlace env true round nIndex))
        (serializeInt32 nIndex) (some (man.loadPlace env true round nIndex)) :=
    fun nIndex mem _ man => (codes_unserializeInt32.parses (indices nIndex mem)).last
      fun nIndex => man.loadPlace env true round nIndex
  refine (codes_unserializeInt32.parses (by omega)).bind ?_
  exact Parses.rounds each 0 man

theorem reloadNew_counts (env : AddrEnv) (written : Written) (man : CAddrMan) :
    (reloadNew env written man).nNew = man.nNew ∧
      (reloadNew env written man).nTried = man.nTried := by
  unfold reloadNew
  induction written.newInfos.zipIdx generalizing man with
  | nil => exact ⟨rfl, rfl⟩
  | cons item rest ih => exact ih (man.loadNew env true item.2 ((man.info item.2).absorb item.1))

variable {written : Written}

theorem parses_readTables (fits : written.Fits) (env : AddrEnv) {man : CAddrMan}
    (nNew : man.nNew = written.nNew) (nTried : man.nTried = written.nTried) :
    Parses (readTables env true newBucketCount man)
      (written.newInfos.flatMap CAddrInfo.serialize ++
        (written.triedInfos.flatMap CAddrInfo.serialize ++ written.buckets.flatMap serializeBucket))
      (reloadTables env written man).prune := by
  have new : ∀ info ∈ written.newInfos, ∀ (n : ℕ) (man : CAddrMan),
      Parses (readNew env true n man) info.serialize
        (some (man.loadNew env true n ((man.info n).absorb info))) :=
    fun info mem n man => (CAddrInfo.parses (fits.newInfos info mem) _).last _
  have tried : ∀ info ∈ written.triedInfos, ∀ (n : ℕ) (state : CAddrMan × Int),
      Parses (readTried env n state) info.serialize
        (some (loadTried env (({} : CAddrInfo).absorb info) state)) :=
    fun info mem n state => (CAddrInfo.parses (fits.triedInfos info mem) _).last _
  have places : ∀ bucket ∈ written.buckets, ∀ (round : ℕ) (man : CAddrMan),
      Parses (readBucket env true round man) (serializeBucket bucket)
        (some (reloadBucket env man (bucket, round))) :=
    fun bucket mem => parses_readBucket (fits.sizes bucket mem) (fits.indices bucket mem)
  obtain ⟨-, triedKept⟩ := reloadNew_counts env written man
  have newRounds : man.nNew.toNat = written.newInfos.length := by
    rw [nNew, fits.nNew.1, Int.toNat_natCast]
  have triedRounds : (reloadNew env written man).nTried.toNat = written.triedInfos.length := by
    rw [triedKept, nTried, fits.nTried.1, Int.toNat_natCast]
  have bucketRounds : (newBucketCount : Int).toNat = written.buckets.length := fits.buckets.symm
  unfold readTables
  rw [newRounds, bucketRounds]
  refine (Parses.rounds new 0 man).bind ?_
  change Parses (rounds (readTried env) (reloadNew env written man).nTried.toNat 0
    ({ reloadNew env written man with nIdCount := (reloadNew env written man).nNew }, 0) >>= _) _ _
  rw [triedRounds]
  refine (Parses.rounds tried 0 _).bind ?_
  rw [← List.append_nil (written.buckets.flatMap serializeBucket)]
  exact (Parses.rounds places 0 _).bind (Parses.lift _)

theorem parses_unserialize (fits : written.Fits) (env : AddrEnv) (randomKey : UInt256)
    (target : CAddrMan) :
    Parses (unserialize env randomKey target) written.bytes
      (reload env written randomKey target).prune := by
  obtain ⟨newLength, newBound⟩ := fits.nNew
  obtain ⟨triedLength, triedBound⟩ := fits.nTried
  have count : serializeInt32 written.nUBuckets =
      LittleEndian.bytes 4 (Int32.ofInt (newBucketCount + 2 ^ 30)).toUInt32.toNat := by
    rw [fits.nUBuckets]
    decide
  refine ((codes_number 1).parses (by decide)).bind ?_
  refine ((codes_number 1).parses (by decide)).bind ?_
  refine (UInt256.codes.parses trivial).bind ?_
  refine (codes_unserializeInt32.parses (by omega)).bind ?_
  refine (codes_unserializeInt32.parses (by omega)).bind ?_
  rw [count]
  refine (Int32.codes.parses trivial).bind ?_
  exact parses_readTables fits env rfl rfl

end CAddrMan

end DogeCash
