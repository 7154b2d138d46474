import DogeCash.Foundation.LittleEndian
import DogeCash.Script.SolverInRange

/-! # Scripts for destinations

The scripts that are built for a destination, for a stake delegation and for several keys, and
what `Solver` and `ExtractDestination` find in them: the hashes and keys that they were built from.
-/

namespace DogeCash

open Op
open UInt8 (ofNat)

/-- `uint160`: the hash of a key or of a script. -/
abbrev UInt160 := BitVec 160

/-- `ToByteVector` of a hash. -/
def UInt160.toByteVector (hash : UInt160) : Valtype := LittleEndian.bytes 20 hash.toNat

/-- `uint160` of a vector of bytes. -/
def UInt160.ofByteVector (vch : Valtype) : ScriptRun UInt160 :=
  if vch.length ≠ 20 then .error (.failed .uintError)
  else pure (BitVec.ofNat 160 (LittleEndian.value vch))

inductive CTxDestination where
  | noDestination
  | keyID (hash : UInt160)
  | scriptID (hash : UInt160)
  deriving DecidableEq

def encodeOP_N (n : Int) : ScriptRun UInt8 :=
  if 0 ≤ n ∧ n ≤ 16 then if n = 0 then pure 0 else pure (ofNat (0x51 + n.toNat - 1))
  else .error (.failed .assertFailed)

def getScriptForDestination : CTxDestination → CScript
  | .noDestination => []
  | .keyID hash =>
    [OP_DUP, OP_HASH160] ++ CScript.pushData hash.toByteVector ++ [OP_EQUALVERIFY, OP_CHECKSIG]
  | .scriptID hash => [OP_HASH160] ++ CScript.pushData hash.toByteVector ++ [OP_EQUAL]

def getScriptForStakeDelegation (stakingKey spendingKey : UInt160) : CScript :=
  [OP_DUP, OP_HASH160, OP_ROT, OP_IF, OP_CHECKCOLDSTAKEVERIFY] ++
    CScript.pushData stakingKey.toByteVector ++ [OP_ELSE] ++
    CScript.pushData spendingKey.toByteVector ++ [OP_ENDIF, OP_EQUALVERIFY, OP_CHECKSIG]

/-- `GetScriptForMultisig`, with the bytes of the keys. Their number is passed on as an `int`. -/
def getScriptForMultisig (nRequired : Int) (keys : List Valtype) : ScriptRun CScript := do
  let m ← encodeOP_N nRequired
  let n ← encodeOP_N ((keys.length : Int).bmod (2 ^ 32))
  pure ([m] ++ keys.flatMap CScript.pushData ++ [n, OP_CHECKMULTISIG])

/-- `CPubKey::GetLen` -/
def pubKeyLen (chHeader : UInt8) : ℕ :=
  if chHeader = 2 ∨ chHeader = 3 then 33
  else if chHeader = 4 ∨ chHeader = 6 ∨ chHeader = 7 then 65
  else 0

/-- `CPubKey::Set`: the key, if it is valid. -/
def setPubKey (vch : Valtype) : Option Valtype :=
  match vch with
  | [] => none
  | chHeader :: _ =>
    if pubKeyLen chHeader ≠ 0 ∧ pubKeyLen chHeader = vch.length then some vch else none

/-- The end of `ExtractDestination`: the destination for what `Solver` found. `hash160` is the
hash of a key. -/
def destinationOf (hash160 : Valtype → UInt160) (whichType : TxnOutType) (vSolutions : List Valtype)
    (fColdStake : Bool) : ScriptRun (Option CTxDestination) :=
  match whichType with
  | .pubKey => do
    let vch ← readAt vSolutions 0
    pure ((setPubKey vch).map fun pubKey => .keyID (hash160 pubKey))
  | .pubKeyHash => do
    let vch ← readAt vSolutions 0
    let hash ← UInt160.ofByteVector vch
    pure (some (.keyID hash))
  | .scriptHash => do
    let vch ← readAt vSolutions 0
    let hash ← UInt160.ofByteVector vch
    pure (some (.scriptID hash))
  | .coldStake => do
    let vch ← readAt vSolutions (if fColdStake then 0 else 1)
    let hash ← UInt160.ofByteVector vch
    pure (some (.keyID hash))
  | .multiSig | .nullData | .zerocoinMint => pure none

def extractDestination (hash160 : Valtype → UInt160) (scriptPubKey : CScript) (fColdStake : Bool) :
    ScriptRun (Option CTxDestination) := do
  match ← solverRead scriptPubKey with
  | none => pure none
  | some (whichType, vSolutions) => destinationOf hash160 whichType vSolutions fColdStake

/-! ## Pushes -/

open CScript Solver

namespace UInt160

theorem length_toByteVector (hash : UInt160) : hash.toByteVector.length = 20 :=
  LittleEndian.length_bytes 20 hash.toNat

theorem ofByteVector_toByteVector (hash : UInt160) : ofByteVector hash.toByteVector = .ok hash := by
  have same : BitVec.ofNat 160 (LittleEndian.value hash.toByteVector) = hash := by
    rw [toByteVector, LittleEndian.value_bytes_of_lt (by exact hash.isLt)]
    exact (BitVec.ofNat_toNat 160 hash).trans (BitVec.setWidth_eq hash)
  rw [ofByteVector, if_neg (not_not.mpr hash.length_toByteVector), same]
  rfl

theorem pushData_toByteVector (hash : UInt160) :
    pushData hash.toByteVector = 0x14 :: hash.toByteVector := by
  rfl

theorem isHashPush (hash : UInt160) : IsHashPush hash.toByteVector (0x14 :: hash.toByteVector) :=
  ⟨hash.length_toByteVector, [0x14], List.mem_cons_self, rfl⟩

end UInt160

/-! ## Destinations -/

theorem solver_keyID (hash : UInt160) :
    solver (getScriptForDestination (.keyID hash)) = some (.pubKeyHash, [hash.toByteVector]) := by
  have spelled : getScriptForDestination (.keyID hash) =
      OP_DUP :: OP_HASH160 :: (0x14 :: hash.toByteVector ++ [OP_EQUALVERIFY, OP_CHECKSIG]) := by
    rfl
  have notScriptHash : (getScriptForDestination (.keyID hash)).isPayToScriptHash = false := by
    rw [spelled]
    simp [isPayToScriptHash, show ¬ OP_DUP = OP_HASH160 by decide]
  rfl

theorem solver_scriptID (hash : UInt160) :
    solver (getScriptForDestination (.scriptID hash)) = some (.scriptHash, [hash.toByteVector]) := by
  have spelled : getScriptForDestination (.scriptID hash) =
      OP_HASH160 :: 0x14 :: (hash.toByteVector ++ [OP_EQUAL]) := by
    rfl
  have twenty := hash.length_toByteVector
  have isScriptHash : (getScriptForDestination (.scriptID hash)).isPayToScriptHash = true := by
    rw [spelled]
    simp [isPayToScriptHash, twenty]
  have data : ((getScriptForDestination (.scriptID hash)).drop 2).take 20 = hash.toByteVector := by
    rw [spelled, List.drop_succ_cons, List.drop_succ_cons, List.drop_zero, ← twenty, List.take_left]
  rw [solver, if_pos isScriptHash, data]

theorem solver_stakeDelegation (stakingKey spendingKey : UInt160) :
    solver (getScriptForStakeDelegation stakingKey spendingKey) =
      some (.coldStake, [stakingKey.toByteVector, spendingKey.toByteVector]) := by
  refine solver_coldStake.mpr
    ⟨_, _, _, _, stakingKey.isHashPush, spendingKey.isHashPush, ?_, rfl⟩
  rw [getScriptForStakeDelegation, stakingKey.pushData_toByteVector,
    spendingKey.pushData_toByteVector, coldStakeScript]
  simp

/-! ## Several keys -/

def smallNumber (n : ℕ) : UInt8 := ofNat (0x51 + n - 1)

variable {n : ℕ} {keys : List Valtype}

theorem encodeOP_N_eq (positive : 0 < n) (small : n ≤ 16) : encodeOP_N n = .ok (smallNumber n) := by
  have inside : 0 ≤ (n : Int) ∧ (n : Int) ≤ 16 := by omega
  have notZero : (n : Int) ≠ 0 := by omega
  rw [encodeOP_N, if_pos inside, if_neg notZero, Int.toNat_natCast]
  rfl

theorem smallNumber_spec : ∀ n < 17, 0 < n → 0x51 ≤ smallNumber n ∧ smallNumber n ≤ 0x60 ∧
    smallNumber n - 0x50 = ofNat n := by
  decide

theorem matchOpcode_smallNumber (positive : 0 < n) (small : n ≤ 16) :
    matchOpcode OP_SMALLINTEGER (smallNumber n) [] = some [[ofNat n]] := by
  obtain ⟨low, high, value⟩ := smallNumber_spec n (Nat.lt_succ_of_le small) positive
  have notZero : smallNumber n ≠ 0 := by
    intro zero
    rw [zero] at low
    exact absurd low (by decide)
  change (if smallNumber n = 0 then some [[0]]
    else if 0x51 ≤ smallNumber n ∧ smallNumber n ≤ 0x60 then some [[smallNumber n - 0x50]]
    else none) = _
  rw [if_neg notZero, if_pos ⟨low, high⟩, value]

theorem smallNumber_bare (positive : 0 < n) (small : n ≤ 16) : 0x4e < smallNumber n :=
  UInt8.lt_of_lt_of_le (by decide) (smallNumber_spec n (Nat.lt_succ_of_le small) positive).1

def IsPubKeySize (size : ℕ) : Prop := size = 33 ∨ size = 65

section

variable {key : Valtype} (size : IsPubKeySize key.length)

include size

theorem isPubKeySized_of_size : isPubKeySized key = true := by
  rw [isPubKeySized, Bool.and_eq_true, decide_eq_true_iff, decide_eq_true_iff]
  rcases size with size | size <;> omega

theorem pushData_of_size : pushData key = ofNat key.length :: key := by
  have short : key.length < 0x4c := by rcases size with size | size <;> omega
  exact if_pos short

theorem getOp_pushData (rest : CScript) :
    getOp (pushData key ++ rest) = some (ofNat key.length, key, rest) := by
  rw [pushData_of_size size]
  refine (Encoded.direct ?_ ?_).getOp rest
  · rcases size with size | size <;> rw [size] <;> decide
  · rcases size with size | size <;> rw [size] <;> rfl

end

theorem collectPubKeys_keys {others : List Valtype} {fuel : ℕ} {opcode next : UInt8}
    {key : Valtype} {tail rest : CScript} (sizes : ∀ key ∈ others, IsPubKeySize key.length)
    (size : IsPubKeySize key.length) (enough : others.length < fuel)
    (ends : getOp tail = some (next, [], rest)) (vSolutions : List Valtype) :
    collectPubKeys fuel (opcode, key, others.flatMap pushData ++ tail) vSolutions =
      (vSolutions ++ key :: others, next, [], rest) := by
  induction others generalizing fuel opcode key vSolutions with
  | nil =>
    obtain ⟨less, rfl⟩ := Nat.exists_eq_add_one_of_ne_zero (Nat.ne_zero_of_lt enough)
    rw [collectPubKeys, if_pos (isPubKeySized_of_size size), List.flatMap_nil, List.nil_append,
      ends]
    cases less with
    | zero => rfl
    | succ less => rfl
  | cons other others ih =>
    obtain ⟨less, rfl⟩ := Nat.exists_eq_add_one_of_ne_zero (Nat.ne_zero_of_lt enough)
    obtain ⟨here, sizes⟩ := List.forall_mem_cons.mp sizes
    rw [collectPubKeys, if_pos (isPubKeySized_of_size size), List.flatMap_cons,
      List.append_assoc, getOp_pushData here]
    dsimp only
    rw [ih sizes here (Nat.lt_of_succ_lt_succ enough), List.append_assoc]
    rfl

theorem length_flatMap_pushData (sizes : ∀ key ∈ keys, IsPubKeySize key.length) :
    keys.length ≤ (keys.flatMap pushData).length ∧
      (keys.flatMap pushData).length ≤ 66 * keys.length := by
  induction keys with
  | nil => exact ⟨le_rfl, le_rfl⟩
  | cons key keys ih =>
    obtain ⟨here, sizes⟩ := List.forall_mem_cons.mp sizes
    have others := ih sizes
    rw [List.flatMap_cons, List.length_append, pushData_of_size here, List.length_cons,
      List.length_cons]
    rcases here with size | size <;> omega

def multisigScript (m : ℕ) (keys : List Valtype) : CScript :=
  smallNumber m :: (keys.flatMap pushData ++ [smallNumber keys.length, OP_CHECKMULTISIG])

section

variable {m : ℕ} {keys : List Valtype} (positive : 1 ≤ m) (few : m ≤ keys.length)
  (small : keys.length ≤ 16) (sizes : ∀ key ∈ keys, IsPubKeySize key.length)

include positive few small

theorem getScriptForMultisig_eq : getScriptForMultisig m keys = .ok (multisigScript m keys) := by
  have plain : (keys.length : Int).bmod (2 ^ 32) = keys.length :=
    Int.bmod_eq_of_le (by omega) (by omega)
  rw [getScriptForMultisig, encodeOP_N_eq positive (few.trans small), plain,
    encodeOP_N_eq (positive.trans few) small]
  rfl

include sizes

theorem matchTemplate_multisigScript :
    matchTemplate [OP_SMALLINTEGER, OP_PUBKEYS, OP_SMALLINTEGER, OP_CHECKMULTISIG]
      (multisigScript m keys) [] =
      some ([ofNat m] :: (keys ++ [[ofNat keys.length]])) := by
  rw [multisigScript, matchTemplate_bare (by decide) (smallNumber_bare positive (few.trans small)),
    matchOpcode_smallNumber positive (few.trans small), Option.bind_some, matchTemplate]
  cases keys with
  | nil => exact absurd (positive.trans few) (by decide)
  | cons key others =>
    obtain ⟨here, sizes⟩ := List.forall_mem_cons.mp sizes
    have count := (length_flatMap_pushData sizes).1
    rw [List.flatMap_cons, List.append_assoc, getOp_pushData here]
    dsimp only
    rw [if_pos rfl, collectPubKeys_keys sizes here ?_
      (getOp_bare (smallNumber_bare (positive.trans few) small) [OP_CHECKMULTISIG])]
    · rw [matchOpcode_smallNumber (positive.trans few) small, Option.bind_some]
      refine (matchTemplate_plain (by decide)).mpr ⟨_, rfl, matchTemplate_nil.mpr ⟨rfl, ?_⟩⟩
      simp
    · simp only [List.length_append, List.length_cons]
      omega

theorem solver_multisigScript :
    solver (multisigScript m keys) =
      some (.multiSig, [ofNat m] :: (keys ++ [[ofNat keys.length]])) := by
  have inside := few.trans small
  have spec := smallNumber_spec m (Nat.lt_succ_of_le inside) positive
  have other {opcode : UInt8} (above : 0x60 < opcode) : smallNumber m ≠ opcode :=
    fun same => absurd above (UInt8.not_lt.mpr (same ▸ spec.2.1))
  have matched := matchTemplate_multisigScript positive few small sizes
  have key : matchTemplate [OP_PUBKEY, OP_CHECKSIG] (multisigScript m keys) [] = none :=
    matchTemplate_bare (by decide) (smallNumber_bare positive inside) _ _ _
  have keyHash : matchTemplate [OP_DUP, OP_HASH160, OP_PUBKEYHASH, OP_EQUALVERIFY, OP_CHECKSIG]
      (multisigScript m keys) [] = none := by
    rw [multisigScript, matchTemplate_bare (by decide) (smallNumber_bare positive inside)]
    have differs : matchOpcode OP_DUP (smallNumber m) [] = none := by
      change (if smallNumber m = OP_DUP ∧ ([] : Valtype) = [] then some [] else none) = none
      exact if_neg fun same => other (by decide) same.1
    rw [differs]
    rfl
  have notScriptHash : (multisigScript m keys).isPayToScriptHash = false := by
    simp [multisigScript, isPayToScriptHash, @other OP_HASH160 (by decide)]
  have notMint : (multisigScript m keys).isZerocoinMint = false := by
    simp [multisigScript, isZerocoinMint, @other OP_ZEROCOINMINT (by decide)]
  have notData : ¬((multisigScript m keys).head? = some OP_RETURN ∧
      isPushOnly (multisigScript m keys).tail = true) :=
    fun data => other (by decide) (Option.some.inj data.1)
  have number {n : ℕ} (fits : n ≤ 16) : (ofNat n).toNat = n :=
    (UInt8.toNat_ofNat).trans (Nat.mod_eq_of_lt (by omega))
  have first : numberOf ([ofNat m] :: (keys ++ [[ofNat keys.length]])).head? = m :=
    number inside
  have last : numberOf ([ofNat m] :: (keys ++ [[ofNat keys.length]])).getLast? =
      keys.length := by
    rw [← List.cons_append, List.getLast?_concat]
    exact number small
  have valid : isValidMultiSig ([ofNat m] :: (keys ++ [[ofNat keys.length]])) = true := by
    unfold isValidMultiSig
    rw [first, last]
    simp [Nat.one_le_iff_ne_zero.mp positive, List.ne_nil_of_length_pos (positive.trans few), few]
  rw [solver, notScriptHash, notMint, if_neg notData]
  simp only [templates, List.findSome?_cons, key, keyHash, matched]
  have kept : ¬(TxnOutType.multiSig = .multiSig ∧
      isValidMultiSig ([ofNat m] :: (keys ++ [[ofNat keys.length]])) = false) :=
    fun bad => Bool.false_ne_true (bad.2.symm.trans valid)
  exact if_neg kept

end

/-! ## The results -/

/-- What is found in a short script that begins with another opcode than `OP_ZEROCOINMINT`. -/
theorem extractDestination_eq (hash160 : Valtype → UInt160) {script : CScript} {first : UInt8}
    {whichType : TxnOutType} {vSolutions : List Valtype} (start : script.head? = some first)
    (other : first ≠ OP_ZEROCOINMINT) (short : script.length < 2 ^ 32)
    (solved : solver script = some (whichType, vSolutions)) (fColdStake : Bool) :
    extractDestination hash160 script fColdStake =
      destinationOf hash160 whichType vSolutions fColdStake := by
  have notMint : script ≠ [OP_ZEROCOINMINT] := by
    intro same
    rw [same] at start
    exact other (Option.some.inj start).symm
  rw [extractDestination, solverRead_eq notMint short, solved]
  rfl

section

variable (hash160 : Valtype → UInt160)

theorem extractDestination_keyID (hash : UInt160) (fColdStake : Bool) :
    extractDestination hash160 (getScriptForDestination (.keyID hash)) fColdStake =
      .ok (some (.keyID hash)) := by
  have short : (getScriptForDestination (.keyID hash)).length < 2 ^ 32 := by
    rw [getScriptForDestination, hash.pushData_toByteVector]
    simp [hash.length_toByteVector]
  have found : destinationOf hash160 .pubKeyHash [hash.toByteVector] fColdStake =
      UInt160.ofByteVector hash.toByteVector >>= fun hash => .ok (some (.keyID hash)) := rfl
  rw [extractDestination_eq hash160 rfl (by decide) short (solver_keyID hash), found,
    hash.ofByteVector_toByteVector]
  rfl

theorem extractDestination_scriptID (hash : UInt160) (fColdStake : Bool) :
    extractDestination hash160 (getScriptForDestination (.scriptID hash)) fColdStake =
      .ok (some (.scriptID hash)) := by
  have short : (getScriptForDestination (.scriptID hash)).length < 2 ^ 32 := by
    rw [getScriptForDestination, hash.pushData_toByteVector]
    simp [hash.length_toByteVector]
  have found : destinationOf hash160 .scriptHash [hash.toByteVector] fColdStake =
      UInt160.ofByteVector hash.toByteVector >>= fun hash => .ok (some (.scriptID hash)) := rfl
  rw [extractDestination_eq hash160 rfl (by decide) short (solver_scriptID hash), found,
    hash.ofByteVector_toByteVector]
  rfl

theorem extractDestination_stakeDelegation (stakingKey spendingKey : UInt160) (fColdStake : Bool) :
    extractDestination hash160 (getScriptForStakeDelegation stakingKey spendingKey) fColdStake =
      .ok (some (.keyID (if fColdStake then stakingKey else spendingKey))) := by
  have short : (getScriptForStakeDelegation stakingKey spendingKey).length < 2 ^ 32 := by
    rw [getScriptForStakeDelegation, stakingKey.pushData_toByteVector,
      spendingKey.pushData_toByteVector]
    simp [stakingKey.length_toByteVector, spendingKey.length_toByteVector]
  have found : destinationOf hash160 .coldStake
      [stakingKey.toByteVector, spendingKey.toByteVector] fColdStake =
      UInt160.ofByteVector (if fColdStake then stakingKey else spendingKey).toByteVector >>=
        fun hash => .ok (some (.keyID hash)) := by
    cases fColdStake <;> rfl
  rw [extractDestination_eq hash160 rfl (by decide) short
    (solver_stakeDelegation stakingKey spendingKey), found, UInt160.ofByteVector_toByteVector]
  rfl

end

theorem solverRead_getScriptForMultisig {m : ℕ} (positive : 1 ≤ m) (few : m ≤ keys.length)
    (small : keys.length ≤ 16) (sizes : ∀ key ∈ keys, IsPubKeySize key.length) :
    (getScriptForMultisig m keys >>= solverRead) =
      .ok (some (.multiSig, [ofNat m] :: (keys ++ [[ofNat keys.length]]))) := by
  have bytes := (length_flatMap_pushData sizes).2
  have length : (multisigScript m keys).length = (keys.flatMap pushData).length + 3 := by
    rw [multisigScript, List.length_cons, List.length_append]
    rfl
  have notMint : multisigScript m keys ≠ [OP_ZEROCOINMINT] := by
    intro same
    have one := congrArg List.length same
    rw [length] at one
    cases one
  rw [getScriptForMultisig_eq positive few small]
  change solverRead (multisigScript m keys) = _
  rw [solverRead_eq notMint (by omega), solver_multisigScript positive few small sizes]

/-- **What `Solver` and `ExtractDestination` find.** They find the hashes and keys that a script
was built from, and `Solver` reads within the script on every script but the single byte
`OP_ZEROCOINMINT`. -/
theorem solver_classifies (hash160 : Valtype → UInt160) :
    (∀ (hash : UInt160) (fColdStake : Bool),
      extractDestination hash160 (getScriptForDestination (.keyID hash)) fColdStake =
          .ok (some (.keyID hash)) ∧
        extractDestination hash160 (getScriptForDestination (.scriptID hash)) fColdStake =
          .ok (some (.scriptID hash))) ∧
    (∀ (stakingKey spendingKey : UInt160) (fColdStake : Bool),
      extractDestination hash160 (getScriptForStakeDelegation stakingKey spendingKey) fColdStake =
        .ok (some (.keyID (if fColdStake then stakingKey else spendingKey)))) ∧
    (∀ (m : ℕ) (keys : List Valtype), 1 ≤ m → m ≤ keys.length → keys.length ≤ 16 →
      (∀ key ∈ keys, IsPubKeySize key.length) →
        (getScriptForMultisig m keys >>= solverRead) =
          .ok (some (.multiSig, [ofNat m] :: (keys ++ [[ofNat keys.length]])))) ∧
    ∀ script : CScript, InBounds (solverRead script) ↔ script ≠ [OP_ZEROCOINMINT] :=
  ⟨fun hash fColdStake => ⟨extractDestination_keyID hash160 hash fColdStake,
      extractDestination_scriptID hash160 hash fColdStake⟩,
    extractDestination_stakeDelegation hash160,
    fun _ _ positive few small sizes => solverRead_getScriptForMultisig positive few small sizes,
    inBounds_solverRead_iff⟩

/-- The test for a zerocoin mint passes on one byte, and the data is taken from the third one on. -/
theorem solverRead_zerocoinMint_outOfBounds : ¬ ∀ script : CScript, InBounds (solverRead script) :=
  fun all => (inBounds_solverRead_iff [OP_ZEROCOINMINT]).mp (all _) rfl

end DogeCash
