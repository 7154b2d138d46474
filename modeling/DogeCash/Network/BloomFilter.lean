import DogeCash.Foundation.PackedBits
import DogeCash.Primitives.Serialize
import DogeCash.Script.Solver

/-! # Bloom filters

A peer loads a filter with `filterload` and is told of the transactions that match it. A filter that
has all bits set is full, one that has none is empty, and two flags stand for this; only some
operations refresh them. What a vector or a script is asked beyond its end is a fault here.
-/

namespace DogeCash

def rotl32 (x : UInt32) (r : UInt32) : UInt32 := (x <<< r) ||| (x >>> (32 - r))

namespace Murmur

def scramble (k1 : UInt32) : UInt32 := rotl32 (k1 * 0xcc9e2d51) 15 * 0x1b873593

/-- The loop over the blocks, and the bytes after the last block. -/
def body (h1 : UInt32) : List UInt8 → UInt32
  | b0 :: b1 :: b2 :: b3 :: rest =>
    let k1 := UInt32.ofNat (fromLittleEndian [b0, b1, b2, b3])
    body (rotl32 (h1 ^^^ scramble k1) 13 * 5 + 0xe6546b64) rest
  | [] => h1
  | tail => h1 ^^^ scramble (UInt32.ofNat (fromLittleEndian tail))

def finish (h1 : UInt32) : UInt32 :=
  let h1 := (h1 ^^^ (h1 >>> 16)) * 0x85ebca6b
  let h1 := (h1 ^^^ (h1 >>> 13)) * 0xc2b2ae35
  h1 ^^^ (h1 >>> 16)

end Murmur

def murmurHash3 (nHashSeed : UInt32) (vDataToHash : List UInt8) : UInt32 :=
  Murmur.finish (Murmur.body nHashSeed vDataToHash ^^^ UInt32.ofNat vDataToHash.length)

/-- What an operation on a filter must not do. -/
inductive BloomFault where
  | outOfRange
  | remainderByZero
  deriving DecidableEq

structure CBloomFilter where
  vData : List UInt8
  isFull : Bool
  isEmpty : Bool
  nHashFuncs : UInt32
  nTweak : UInt32
  nFlags : UInt8
  deriving DecidableEq

/-- What the filters ask the rest of the program: `CoinSpend::ParseSerial`, which may throw. -/
structure BloomEnv where
  parseSerial : List UInt8 → Option (List UInt8)

namespace CBloomFilter

def hash (filter : CBloomFilter) (nHashNum : ℕ) (vDataToHash : List UInt8) : Except BloomFault ℕ :=
  if filter.vData.length * 8 = 0 then .error .remainderByZero
  else
    .ok ((murmurHash3 (UInt32.ofNat nHashNum * 0xFBA4C795 + filter.nTweak) vDataToHash).toNat %
      (filter.vData.length * 8))

/-- Set the bit `nIndex` of `vData`. -/
def setBit (filter : CBloomFilter) (nIndex : ℕ) : Except BloomFault CBloomFilter :=
  if nIndex / 8 < filter.vData.length then
    .ok { filter with
      vData := filter.vData.modify (nIndex / 8) (· ||| PackedBits.single true (nIndex % 8)) }
  else .error .outOfRange

def insertHash (vKey : List UInt8) (filter : CBloomFilter) (i : ℕ) :
    Except BloomFault CBloomFilter := do
  let nIndex ← filter.hash i vKey
  filter.setBit nIndex

def insert (filter : CBloomFilter) (vKey : List UInt8) : Except BloomFault CBloomFilter :=
  if filter.isFull then .ok filter
  else do
    let filter ← (List.range filter.nHashFuncs.toNat).foldlM (insertHash vKey) filter
    return { filter with isEmpty := false }

/-- Check the bit `nIndex` of `vData`. -/
def checkBit (filter : CBloomFilter) (nIndex : ℕ) : Except BloomFault Bool :=
  match filter.vData[nIndex / 8]? with
  | none => .error .outOfRange
  | some byte => .ok (byte &&& PackedBits.single true (nIndex % 8) != 0)

/-- The loop of `contains` over the hash functions. -/
def containsHashes (filter : CBloomFilter) (vKey : List UInt8) : List ℕ → Except BloomFault Bool
  | [] => .ok true
  | i :: rest => do
    let nIndex ← filter.hash i vKey
    if ← filter.checkBit nIndex then containsHashes filter vKey rest else return false

def contains (filter : CBloomFilter) (vKey : List UInt8) : Except BloomFault Bool :=
  if filter.isFull then .ok true
  else if filter.isEmpty then .ok false
  else filter.containsHashes vKey (List.range filter.nHashFuncs.toNat)

def containsData (filter : CBloomFilter) (data : List UInt8) : Except BloomFault Bool :=
  if data = [] then .ok false else filter.contains data

def isWithinSizeConstraints (filter : CBloomFilter) : Bool :=
  filter.vData.length ≤ 36000 && filter.nHashFuncs ≤ 50

def matchesAll (filter : CBloomFilter) : Bool := filter.vData.all fun b => b = 0xff

def isCompatible (filter other : CBloomFilter) : Bool :=
  other.vData.length = filter.vData.length && other.nHashFuncs = filter.nHashFuncs &&
    other.nTweak = filter.nTweak

/-- `CBloomFilter::Merge`. The other branch writes to the first byte of a vector that it has just
cleared. -/
def merge (filter other : CBloomFilter) : Except BloomFault (Bool × CBloomFilter) :=
  if !filter.matchesAll && !other.matchesAll then
    if !filter.isCompatible other then .ok (false, filter)
    else .ok (true, { filter with vData := List.zipWith (· ||| ·) filter.vData other.vData })
  else .error .outOfRange

def updateEmptyFull (filter : CBloomFilter) : CBloomFilter :=
  { filter with
    isFull := filter.vData.all fun b => b = 0xff
    isEmpty := filter.vData.all fun b => b = 0 }

/-- The handler of `filterload`: the filter that the peer has afterwards, if it is accepted. -/
def filterLoad (filter : CBloomFilter) : Option CBloomFilter :=
  if filter.isWithinSizeConstraints then some filter.updateEmptyFull else none

/-- The loop over the instructions of a script, with what is looked for instead of their data.
Nothing comes back where the serial of a spend cannot be read. -/
def scan (filter : CBloomFilter)
    (dataOf : List UInt8 → Except BloomFault (Option (List UInt8))) (pc : CScript) :
    Except BloomFault (Option Bool) :=
  match _read : CScript.getOp pc with
  | none => .ok (some false)
  | some (_, pushed, rest) => do
    match ← dataOf pushed with
    | none => return none
    | some data =>
      let found ← filter.containsData data
      if found then return some true else scan filter dataOf rest
termination_by pc.length
decreasing_by exact CScript.getOp_length _read

def slice (script : CScript) (first : ℕ) : Except BloomFault (List UInt8) :=
  if script.length < first then .error .outOfRange else .ok (script.drop first)

/-- What is looked for in an instruction of a `scriptPubKey`. -/
def mintData (txout : CTxOut) (pushed : List UInt8) : Except BloomFault (Option (List UInt8)) :=
  if txout.isZerocoinMint then (slice txout.scriptPubKey 6).map some else .ok (some pushed)

/-- What is looked for in an instruction of a `scriptSig`. -/
def spendData (env : BloomEnv) (txin : CTxIn) (pushed : List UInt8) :
    Except BloomFault (Option (List UInt8)) :=
  if CScript.isZerocoinSpend txin.scriptSig then (slice txin.scriptSig 44).map env.parseSerial
  else .ok (some pushed)

/-- The outpoint of a matched output is added to the filter. -/
def isUpdated (filter : CBloomFilter) (txout : CTxOut) : Bool :=
  if filter.nFlags &&& 3 = 1 then true
  else if filter.nFlags &&& 3 = 2 then
    match solver txout.scriptPubKey with
    | some (type, _) => type = .pubKey || type = .multiSig
    | none => false
  else false

/-- One round of the loop over the outputs, with whether something was found. -/
def visitOutput (hash : UInt256) (state : Bool × CBloomFilter) (output : CTxOut × ℕ) :
    Except BloomFault (Bool × CBloomFilter) := do
  let found ← state.2.scan (mintData output.1) output.1.scriptPubKey
  if found = some true then
    if state.2.isUpdated output.1 then
      let filter ← state.2.insert (COutPoint.serialize ⟨hash, UInt32.ofNat output.2⟩)
      return (true, filter)
    else return (true, state.2)
  else return state

def visitInputs (env : BloomEnv) (filter : CBloomFilter) :
    List CTxIn → Except BloomFault (Option Bool)
  | [] => .ok (some false)
  | txin :: rest => do
    if ← filter.contains (COutPoint.serialize txin.prevout) then return some true
    else
      match ← filter.scan (spendData env txin) txin.scriptSig with
      | none => return none
      | some true => return some true
      | some false => visitInputs env filter rest

/-- `CBloomFilter::IsRelevantAndUpdate`. Nothing comes back, besides the filter, when an exception
is thrown. -/
def isRelevantAndUpdate (env : BloomEnv) (filter : CBloomFilter) (tx : CTransaction) :
    Except BloomFault (Option Bool × CBloomFilter) :=
  if filter.isFull then .ok (some true, filter)
  else if filter.isEmpty then .ok (some false, filter)
  else do
    let fFound ← filter.contains (UInt256.serialize tx.hash)
    let (fFound, filter) ← tx.vout.zipIdx.foldlM (visitOutput tx.hash) (fFound, filter)
    if fFound then return (some true, filter)
    else
      let relevant ← visitInputs env filter tx.vin
      return (relevant, filter)

end CBloomFilter

/-- A filter that `filterload` has accepted. -/
abbrev AcceptedFilter : Type :=
  { filter : CBloomFilter // ∃ received : CBloomFilter, received.filterLoad = some filter }

end DogeCash
