import DogeCash.Foundation.Checked
import DogeCash.Masternode.Collateral
import Mathlib.Data.Finset.Max

/-! # The key pool of a wallet

The wallet keeps keys in reserve. A record of each is in the wallet database under an index, and
the indices of those that are available are in two sets, one for the addresses the wallet gives
out and one for change. `TopUpKeyPool` generates keys, `ReserveKeyFromKeyPool` takes the oldest
index out of a set and reads its record. A `CReserveKey` keeps the key, which erases the record,
or returns it, which puts the index back.

The index of a new record is one more than the largest in the two sets.
-/

namespace DogeCash

structure CKeyPool where
  vchPubKey : CPubKey := []
  fInternal : Bool := false

structure CReserveKey where
  nIndex : ℤ := -1
  vchPubKey : CPubKey := []
  fInternal : Bool := false

/-- What makes `ReserveKeyFromKeyPool` throw, and a failed assertion. -/
inductive KeyPoolError where
  | readFailed
  | unknownKey
  | misclassified
  | assertion

/-- What the key pool takes from the wallet. The keys that are generated are valid and
distinct. -/
structure KeyPoolEnv where
  isHDEnabled : Bool
  isLocked : Bool
  /-- The argument `-keypool`, or its default. -/
  keypoolArg : Int
  /-- `GenerateNewKey`, by the number of keys that were generated before. -/
  generateNewKey : ℕ → Bool → CPubKey
  /-- `CPubKey::GetID` -/
  keyID : CPubKey → List UInt8
  valid : ∀ count fInternal, generateNewKey count fInternal ≠ []
  distinct : ∀ first second one other,
    generateNewKey first one = generateNewKey second other → first = second

/-- The key pool. `setKeyPool` is `setInternalKeyPool` for `true` and `setExternalKeyPool` for
`false`. -/
structure KeyPoolWallet where
  keys : List CPubKey := []
  setKeyPool : Bool → Finset ℤ := fun _ => ∅
  pool : ℤ → Option CKeyPool := fun _ => none
  reservations : ℕ → CReserveKey := fun _ => {}
  /-- The keys that were kept, or returned by `GetKeyFromPool`. -/
  handedOut : List CPubKey := []

namespace KeyPoolWallet

variable (wallet : KeyPoolWallet)

def haveKey (keyID : CPubKey → List UInt8) (address : List UInt8) : Bool :=
  wallet.keys.any fun key => keyID key = address

def indexAfter (setKeyPool : Finset ℤ) : Option ℤ :=
  if inhabited : setKeyPool.Nonempty then some (setKeyPool.max' inhabited + 1) else none

def nEnd : ℤ :=
  let nEnd := (indexAfter (wallet.setKeyPool true)).getD 1
  match indexAfter (wallet.setKeyPool false) with
  | some next => max nEnd next
  | none => nEnd

def insertIndex (fInternal : Bool) (nIndex : ℤ) : KeyPoolWallet :=
  { wallet with setKeyPool :=
      Function.update wallet.setKeyPool fInternal (insert nIndex (wallet.setKeyPool fInternal)) }

def eraseIndex (fInternal : Bool) (nIndex : ℤ) : KeyPoolWallet :=
  { wallet with setKeyPool :=
      Function.update wallet.setKeyPool fInternal ((wallet.setKeyPool fInternal).erase nIndex) }

def writePool (nIndex : ℤ) (keypool : CKeyPool) : KeyPoolWallet :=
  { wallet with pool := Function.update wallet.pool nIndex (some keypool) }

/-- `CWallet::KeepKey`, for a wallet with a file. -/
def erasePool (nIndex : ℤ) : KeyPoolWallet :=
  { wallet with pool := Function.update wallet.pool nIndex none }

def setReservation (id : ℕ) (reservation : CReserveKey) : KeyPoolWallet :=
  { wallet with reservations := Function.update wallet.reservations id reservation }

def resetReservation (id : ℕ) : KeyPoolWallet :=
  wallet.setReservation id { wallet.reservations id with nIndex := -1, vchPubKey := [] }

def handOut (key : CPubKey) : KeyPoolWallet :=
  { wallet with handedOut := wallet.handedOut ++ [key] }

end KeyPoolWallet

namespace KeyPoolEnv

variable (env : KeyPoolEnv)

/-- `nTargetSize`, an unsigned number of 32 bits. -/
def nTargetSize (kpSize : UInt32) : ℕ :=
  if 0 < kpSize then kpSize.toNat else (BitVec.ofInt 32 (max env.keypoolArg 0)).toNat

/-- `GenerateNewKey` -/
def newKey (fInternal : Bool) (wallet : KeyPoolWallet) : CPubKey × KeyPoolWallet :=
  let key := env.generateNewKey wallet.keys.length fInternal
  (key, { wallet with keys := wallet.keys ++ [key] })

/-- One round of the loop in `TopUpKeyPool`. -/
def addKey (fInternal : Bool) (wallet : KeyPoolWallet) : KeyPoolWallet :=
  let nEnd := wallet.nEnd
  let (key, wallet) := env.newKey fInternal wallet
  (wallet.writePool nEnd ⟨key, fInternal⟩).insertIndex fInternal nEnd

/-- The loop of `TopUpKeyPool`, with the rounds that are left. -/
def addKeys (missingInternal : ℕ) : ℕ → Bool → KeyPoolWallet → KeyPoolWallet
  | 0, _, wallet => wallet
  | i + 1, fInternal, wallet =>
    let fInternal := fInternal || i < missingInternal
    addKeys missingInternal i fInternal (env.addKey fInternal wallet)

def missing (nTargetSize : ℕ) (setKeyPool : Finset ℤ) : ℕ := max nTargetSize 1 - setKeyPool.card

/-- `TopUpKeyPool`, which returns true unless the wallet is locked. -/
def topUpKeyPool (kpSize : UInt32) (wallet : KeyPoolWallet) : KeyPoolWallet :=
  if env.isLocked then wallet
  else
    let missingExternal := missing (env.nTargetSize kpSize) (wallet.setKeyPool false)
    let missingInternal :=
      if !env.isHDEnabled then 0 else missing (env.nTargetSize kpSize) (wallet.setKeyPool true)
    env.addKeys missingInternal (missingInternal + missingExternal) false wallet

/-- The oldest key of a set is taken: the index -1 stands for an empty set. -/
def takeKey (fInternal : Bool) (wallet : KeyPoolWallet) :
    Except KeyPoolError (ℤ × CKeyPool × KeyPoolWallet) :=
  if inhabited : (wallet.setKeyPool fInternal).Nonempty then
    let nIndex := (wallet.setKeyPool fInternal).min' inhabited
    let wallet := wallet.eraseIndex fInternal nIndex
    match wallet.pool nIndex with
    | none => .error .readFailed
    | some keypool =>
      if !wallet.haveKey env.keyID (env.keyID keypool.vchPubKey) then .error .unknownKey
      else if keypool.fInternal ≠ fInternal then .error .misclassified
      else if keypool.vchPubKey.isEmpty then .error .assertion
      else .ok (nIndex, keypool, wallet)
  else .ok (-1, {}, wallet)

def reserveKeyFromKeyPool (fInternal : Bool) (wallet : KeyPoolWallet) :
    Except KeyPoolError (ℤ × CKeyPool × KeyPoolWallet) :=
  env.takeKey (fInternal && env.isHDEnabled)
    (if !env.isLocked then env.topUpKeyPool 0 wallet else wallet)

/-- The assertion at the end of `GetReservedKey`. -/
def assertReserved (id : ℕ) (wallet : KeyPoolWallet) : Except KeyPoolError KeyPoolWallet :=
  if (wallet.reservations id).vchPubKey.isEmpty then .error .assertion else .ok wallet

def getReservedKey (id : ℕ) (fInternalIn : Bool) (wallet : KeyPoolWallet) :
    Except KeyPoolError KeyPoolWallet :=
  if (wallet.reservations id).nIndex = -1 then
    env.reserveKeyFromKeyPool fInternalIn wallet >>= fun (nIndex, keypool, wallet) =>
      if nIndex = -1 then .ok wallet
      else assertReserved id
        (wallet.setReservation id ⟨nIndex, keypool.vchPubKey, keypool.fInternal⟩)
  else assertReserved id wallet

def keepKey (id : ℕ) (wallet : KeyPoolWallet) : KeyPoolWallet :=
  let reservation := wallet.reservations id
  (if reservation.nIndex ≠ -1 then
    (wallet.erasePool reservation.nIndex).handOut reservation.vchPubKey
  else wallet).resetReservation id

def returnKey (id : ℕ) (wallet : KeyPoolWallet) : KeyPoolWallet :=
  let reservation := wallet.reservations id
  (if reservation.nIndex ≠ -1 then wallet.insertIndex reservation.fInternal reservation.nIndex
  else wallet).resetReservation id

def getKeyFromPool (fInternal : Bool) (wallet : KeyPoolWallet) :
    Except KeyPoolError KeyPoolWallet :=
  env.reserveKeyFromKeyPool fInternal wallet >>= fun (nIndex, keypool, wallet) =>
    if nIndex = -1 then
      if env.isLocked then .ok wallet
      else
        let (result, wallet) := env.newKey fInternal wallet
        .ok (wallet.handOut result)
    else .ok ((wallet.erasePool nIndex).handOut keypool.vchPubKey)

end KeyPoolEnv

/-- What is done with the key pool. A reservation is named by a number. -/
inductive KeyPoolAction where
  | topUpKeyPool (kpSize : UInt32)
  | getReservedKey (id : ℕ) (fInternalIn : Bool)
  | keepKey (id : ℕ)
  | returnKey (id : ℕ)
  | getKeyFromPool (fInternal : Bool)

namespace KeyPoolEnv

variable (env : KeyPoolEnv)

def perform : KeyPoolAction → KeyPoolWallet → Except KeyPoolError KeyPoolWallet
  | .topUpKeyPool kpSize, wallet => .ok (env.topUpKeyPool kpSize wallet)
  | .getReservedKey id fInternalIn, wallet => env.getReservedKey id fInternalIn wallet
  | .keepKey id, wallet => .ok (keepKey id wallet)
  | .returnKey id, wallet => .ok (returnKey id wallet)
  | .getKeyFromPool fInternal, wallet => env.getKeyFromPool fInternal wallet

def step (action : KeyPoolAction) (wallet : KeyPoolWallet) : Option KeyPoolWallet :=
  (env.perform action wallet).toOption

end KeyPoolEnv

namespace KeyPoolWallet

/-- No key is reserved or handed out twice, and what is available has its record. -/
structure Sound (wallet : KeyPoolWallet) : Prop where
  indices : ∀ id other, id ≠ other → (wallet.reservations id).nIndex ≠ -1 →
    (wallet.reservations id).nIndex ≠ (wallet.reservations other).nIndex
  keys : ∀ id other, id ≠ other → (wallet.reservations id).nIndex ≠ -1 →
    (wallet.reservations other).nIndex ≠ -1 →
      (wallet.reservations id).vchPubKey ≠ (wallet.reservations other).vchPubKey
  once : wallet.handedOut.Nodup
  records : ∀ fInternal, ∀ nIndex ∈ wallet.setKeyPool fInternal,
    ∃ key, wallet.pool nIndex = some ⟨key, fInternal⟩

end KeyPoolWallet

end DogeCash
