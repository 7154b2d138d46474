import DogeCash.Foundation.Run
import DogeCash.Masternode.LockVotes

/-! # The collateral of a masternode

A masternode is announced with the outpoint of its collateral and the key that owns it.
`IsInputAssociatedWithPubkey` looks for an output of the right value and key anywhere in the
transaction of the outpoint, and `CheckInputsAndAdd` only asks for an unspent output of
about that value at the outpoint; nothing says that the two are the same output.
-/

namespace DogeCash

/-- `CPubKey`, serialized. -/
abbrev CPubKey := List UInt8

structure CService where
  ip : List UInt8
  port : UInt16
  deriving DecidableEq

/-- The states that `CMasternode::Check` gives to a masternode. -/
inductive MasternodeState where
  | preEnabled
  | enabled
  | expired
  | remove
  | vinSpent
  deriving DecidableEq

structure CMasternodePing where
  vin : CTxIn
  blockHash : UInt256
  sigTime : Int
  vchSig : List UInt8
  nMessVersion : Int

/-- `CMasternodeBroadcast`, as it is received. -/
structure CMasternodeBroadcast where
  vin : CTxIn
  addr : CService
  pubKeyCollateralAddress : CPubKey
  pubKeyMasternode : CPubKey
  vchSig : List UInt8
  sigTime : Int
  protocolVersion : Int
  lastPing : CMasternodePing
  nMessVersion : Int

structure CMasternode extends CMasternodeBroadcast where
  activeState : MasternodeState
  lastTimeChecked : Int

/-- `CChainParams::MasternodeCollateralLimit`, in coins. -/
def masternodeCollateralLimit : Int := 5000

/-- What `AcceptableInputs` must find at the outpoint: a hundredth of a coin less. -/
def masternodeInputValue : Int := masternodeCollateralLimit * COIN - COIN / 100

/-- `MASTERNODE_MIN_CONFIRMATIONS` -/
def masternodeMinConfirmations : Int := 15

/-- `MASTERNODE_REMOVAL_SECONDS` -/
def masternodeRemovalSeconds : Int := 130 * 60

/-- `MASTERNODE_EXPIRATION_SECONDS` -/
def masternodeExpirationSeconds : Int := 120 * 60

/-- `MASTERNODE_MIN_MNP_SECONDS` -/
def masternodeMinMnpSeconds : Int := 10 * 60

/-- `MASTERNODE_MIN_MNB_SECONDS` -/
def masternodeMinMnbSeconds : Int := 5 * 60

/-- `MASTERNODE_CHECK_SECONDS` -/
def masternodeCheckSeconds : Int := 5

/-- What the handler of `mnb` asks the rest of the node. The unspent outputs are outputs of
the transactions that are found. -/
structure AnnounceEnv where
  fLiteMode : Bool
  isBlockchainSynced : Bool
  shutdownRequested : Bool
  isMain : Bool
  /-- `GetAdjustedTime` -/
  adjustedTime : Int
  /-- `GetTime` -/
  time : Int
  /-- `CMasternodePayments::GetMinMasternodePaymentsProto` -/
  minPaymentsProto : Int
  /-- `CPubKey::GetID` -/
  keyID : CPubKey → List UInt8
  /-- `CMessageSigner::VerifyMessage` for the message of an announcement. -/
  verifyBroadcast : CPubKey → CMasternodeBroadcast → Bool
  /-- `CMasternodePing::CheckSignature` -/
  verifyPing : CPubKey → CMasternodePing → Bool
  broadcastHash : Int → CPubKey → UInt256
  /-- The block is in the active chain, at most 24 blocks below the tip. -/
  isRecentBlock : UInt256 → Bool
  /-- The outpoint and the key of the masternode that the node runs, if it runs one. -/
  activeMasternode : Option (COutPoint × CPubKey)
  /-- Whether `cs_main` is free. -/
  lockMain : Bool
  coins : COutPoint → Option CTxOut
  /-- `GetTransaction`: the transaction and the hash of its block. -/
  getTransaction : UInt256 → Option (CTransaction × UInt256)
  /-- What `AcceptableInputs` checks besides the value of the output. -/
  acceptsInput : CTxIn → Bool
  getInputAge : CTxIn → Int
  /-- The time of the block in which a transaction of a block has enough confirmations, if
  that block is known. -/
  confirmationTime : UInt256 → Option Int
  found : ∀ outpoint out, coins outpoint = some out → ∃ tx hashBlock,
    getTransaction outpoint.hash = some (tx, hashBlock) ∧ tx.vout[outpoint.n.toNat]? = some out

/-- `CMasternodeMan`, with one entry for an outpoint. -/
structure CMasternodeMan where
  vMasternodes : List CMasternode
  mapSeenMasternodeBroadcast : UInt256 → Option CMasternodeBroadcast
  distinct : (vMasternodes.map fun mn => mn.vin.prevout).Nodup

/-- How `CheckInputsAndAdd` ends: it returns false in the cases `refused` and `postponed`. -/
inductive InputsOutcome where
  | ours
  | refused
  | known
  | postponed
  | added
  deriving DecidableEq

/-- `mn.lastPing == CMasternodePing()`, which compares inputs and block hashes. -/
def CMasternodePing.isDefault (ping : CMasternodePing) : Bool :=
  ping.vin = ⟨COutPoint.null, [], 0xffffffff⟩ && ping.blockHash = 0

def CMasternodeBroadcast.toMasternode (mnb : CMasternodeBroadcast) : CMasternode :=
  { mnb with activeState := .enabled, lastTimeChecked := 0 }

namespace AnnounceEnv

variable (env : AnnounceEnv)

/-- `GetScriptForDestination` for the id of a key. -/
def scriptFor (pubKey : CPubKey) : CScript :=
  [0x76, Op.OP_HASH160, 0x14] ++ env.keyID pubKey ++ [Op.OP_EQUALVERIFY, Op.OP_CHECKSIG]

/-- `CMasternodeBroadcast::GetHash` -/
def hashOf (mnb : CMasternodeBroadcast) : UInt256 :=
  env.broadcastHash mnb.sigTime mnb.pubKeyCollateralAddress

/-- `AcceptableInputs` for a transaction that spends an input. -/
def acceptableInputs (vin : CTxIn) : Bool :=
  env.acceptsInput vin &&
    match env.coins vin.prevout with
    | none => false
    | some out => masternodeInputValue ≤ out.nValue

def isCollateral (pubKey : CPubKey) (out : CTxOut) : Bool :=
  out.nValue = masternodeCollateralLimit * COIN && out.scriptPubKey = env.scriptFor pubKey

def isInputAssociatedWithPubkey (mnb : CMasternodeBroadcast) : Bool :=
  match env.getTransaction mnb.vin.prevout.hash with
  | none => false
  | some (txVin, _) => txVin.vout.any (env.isCollateral mnb.pubKeyCollateralAddress)

def isPingedWithin (seconds now : Int) (mn : CMasternode) : Bool :=
  let now := if now = -1 then env.adjustedTime else now
  !mn.lastPing.isDefault && now - mn.lastPing.sigTime < seconds

def check (forceCheck : Bool) (mn : CMasternode) : CMasternode :=
  if env.shutdownRequested then mn
  else if !forceCheck && env.time - mn.lastTimeChecked < masternodeCheckSeconds then mn
  else
    let mn := { mn with lastTimeChecked := env.time }
    if mn.activeState = .vinSpent then mn
    else if !env.isPingedWithin masternodeRemovalSeconds (-1) mn then
      { mn with activeState := .remove }
    else if !env.isPingedWithin masternodeExpirationSeconds (-1) mn then
      { mn with activeState := .expired }
    else if mn.lastPing.sigTime - mn.sigTime < masternodeMinMnpSeconds then
      { mn with activeState := .preEnabled }
    else if !env.lockMain then mn
    else if !env.acceptableInputs mn.vin then { mn with activeState := .vinSpent }
    else { mn with activeState := .enabled }

/-- The announced masternode is the one that the node runs. -/
def isOurs (mnb : CMasternodeBroadcast) : Bool :=
  match env.activeMasternode with
  | none => false
  | some (prevout, pubKeyMasternode) =>
    mnb.vin.prevout = prevout && mnb.pubKeyMasternode = pubKeyMasternode

/-- The announcement was signed before its collateral had enough confirmations. -/
def isSignedTooEarly (mnb : CMasternodeBroadcast) : Bool :=
  match (env.getTransaction mnb.vin.prevout.hash).bind fun found =>
      env.confirmationTime found.2 with
  | none => false
  | some blockTime => mnb.sigTime < blockTime

end AnnounceEnv

namespace CMasternodeMan

def initial : CMasternodeMan where
  vMasternodes := []
  mapSeenMasternodeBroadcast := fun _ => none
  distinct := List.nodup_nil

/-- `CMasternodeMan::Find` by an input. -/
def find (prevout : COutPoint) (manager : CMasternodeMan) : Option CMasternode :=
  manager.vMasternodes.find? fun mn => mn.vin.prevout = prevout

/-- Change the entry of an outpoint, but not its input. -/
def update (prevout : COutPoint) (change : CMasternode → CMasternode)
    (keeps : ∀ mn, (change mn).vin = mn.vin) (manager : CMasternodeMan) : CMasternodeMan where
  vMasternodes := manager.vMasternodes.map fun mn =>
    if mn.vin.prevout = prevout then change mn else mn
  mapSeenMasternodeBroadcast := manager.mapSeenMasternodeBroadcast
  distinct := by
    rw [List.map_map]
    suffices same : ((fun mn : CMasternode => mn.vin.prevout) ∘ fun mn =>
        if mn.vin.prevout = prevout then change mn else mn) = fun mn => mn.vin.prevout by
      rw [same]
      exact manager.distinct
    funext mn
    by_cases here : mn.vin.prevout = prevout <;> simp [here, keeps]

/-- `CMasternodeMan::Remove` for the entry of an outpoint. -/
def remove (prevout : COutPoint) (manager : CMasternodeMan) : CMasternodeMan where
  vMasternodes := manager.vMasternodes.filter fun mn => mn.vin.prevout ≠ prevout
  mapSeenMasternodeBroadcast := manager.mapSeenMasternodeBroadcast
  distinct := manager.distinct.sublist (List.filter_sublist.map _)

def add (mn : CMasternode) (manager : CMasternodeMan) : CMasternodeMan :=
  if fresh : mn.activeState = .enabled ∧ mn.vin.prevout ∉
      manager.vMasternodes.map (fun mn => mn.vin.prevout) then
    { manager with
      vMasternodes := manager.vMasternodes ++ [mn]
      distinct := by
        rw [List.map_append]
        exact List.nodup_append.mpr ⟨manager.distinct, List.nodup_singleton _, by
          intro outpoint mem other here same
          rw [List.map_singleton, List.mem_singleton] at here
          exact fresh.2 (here ▸ same ▸ mem)⟩ }
  else manager

def see (hash : UInt256) (seen : Option CMasternodeBroadcast) (manager : CMasternodeMan) :
    CMasternodeMan :=
  { manager with
    mapSeenMasternodeBroadcast := Function.update manager.mapSeenMasternodeBroadcast hash seen }

variable (env : AnnounceEnv)

/-- `CMasternodePing::CheckAndUpdate` when only the time and the signature are checked. -/
def checkPingTime (ping : CMasternodePing) (manager : CMasternodeMan) : Bool :=
  if env.adjustedTime + 60 * 60 < ping.sigTime then false
  else if ping.sigTime ≤ env.adjustedTime - 60 * 60 then false
  else
    match manager.find ping.vin.prevout with
    | none => true
    | some pmn => env.verifyPing pmn.pubKeyMasternode ping

def takePing (ping : CMasternodePing) (mn : CMasternode) : CMasternode :=
  env.check true { mn with lastPing := ping }

theorem check_vin (forceCheck : Bool) (mn : CMasternode) :
    (env.check forceCheck mn).vin = mn.vin := by
  unfold AnnounceEnv.check
  simp only
  split_ifs <;> rfl

/-- `CMasternodePing::CheckAndUpdate` without `fRequireEnabled`. -/
def checkPing (ping : CMasternodePing) (manager : CMasternodeMan) : Bool × CMasternodeMan :=
  if env.adjustedTime + 60 * 60 < ping.sigTime then (false, manager)
  else if ping.sigTime ≤ env.adjustedTime - 60 * 60 then (false, manager)
  else
    match manager.find ping.vin.prevout with
    | none => (false, manager)
    | some pmn =>
      if pmn.protocolVersion < env.minPaymentsProto then (false, manager)
      else if env.isPingedWithin (masternodeMinMnpSeconds - 60) ping.sigTime pmn then
        (false, manager)
      else if !env.verifyPing pmn.pubKeyMasternode ping then (false, manager)
      else if !env.isRecentBlock ping.blockHash then (false, manager)
      else
        let hash := env.hashOf pmn.toCMasternodeBroadcast
        let seen := (manager.mapSeenMasternodeBroadcast hash).map fun mnb =>
          { mnb with lastPing := ping }
        ((takePing env ping pmn).activeState = .enabled,
          (manager.see hash seen).update ping.vin.prevout (takePing env ping)
            fun mn => check_vin env true { mn with lastPing := ping })

/-- The fields that `CMasternode::UpdateFromNewBroadcast` takes from an announcement. -/
def takeBroadcast (mnb : CMasternodeBroadcast) (mn : CMasternode) : CMasternode :=
  { mn with
    pubKeyMasternode := mnb.pubKeyMasternode
    pubKeyCollateralAddress := mnb.pubKeyCollateralAddress
    sigTime := mnb.sigTime
    vchSig := mnb.vchSig
    protocolVersion := mnb.protocolVersion
    addr := mnb.addr
    lastTimeChecked := 0 }

def withPing (ping : CMasternodePing) (mn : CMasternode) : CMasternode := { mn with lastPing := ping }

/-- `CMasternode::UpdateFromNewBroadcast` for a newer announcement, and the check of the entry
that follows. -/
def updateFromNewBroadcast (mnb : CMasternodeBroadcast) (manager : CMasternodeMan) :
    CMasternodeMan :=
  let taken := manager.update mnb.vin.prevout (takeBroadcast mnb) fun _ => rfl
  let pinged :=
    if mnb.lastPing.isDefault then taken.update mnb.vin.prevout (withPing mnb.lastPing) fun _ => rfl
    else
      match taken.checkPing env mnb.lastPing with
      | (false, after) => after
      | (true, after) => after.update mnb.vin.prevout (withPing mnb.lastPing) fun _ => rfl
  pinged.update mnb.vin.prevout (env.check false) (check_vin env false)

/-- What `CMasternodeBroadcast::CheckAndUpdate` requires of an announcement, before it looks
for an entry. -/
def isWellFormed (mnb : CMasternodeBroadcast) (manager : CMasternodeMan) : Bool :=
  if env.adjustedTime + 60 * 60 < mnb.sigTime then false
  else if mnb.lastPing.isDefault || !manager.checkPingTime env mnb.lastPing then false
  else if mnb.protocolVersion < env.minPaymentsProto then false
  else if (env.scriptFor mnb.pubKeyCollateralAddress).length ≠ 25 then false
  else if (env.scriptFor mnb.pubKeyMasternode).length ≠ 25 then false
  else if mnb.vin.scriptSig ≠ [] then false
  else if !env.verifyBroadcast mnb.pubKeyCollateralAddress mnb then false
  else if env.isMain then mnb.addr.port = 56740
  else mnb.addr.port ≠ 56740

def checkAndUpdate (mnb : CMasternodeBroadcast) (manager : CMasternodeMan) :
    Bool × CMasternodeMan :=
  if !manager.isWellFormed env mnb then (false, manager)
  else
    match manager.find mnb.vin.prevout with
    | none => (true, manager)
    | some pmn =>
      if mnb.sigTime ≤ pmn.sigTime then (false, manager)
      else if pmn.activeState ≠ .enabled then (true, manager)
      else if pmn.pubKeyCollateralAddress = mnb.pubKeyCollateralAddress &&
          !decide (env.adjustedTime - pmn.sigTime < masternodeMinMnbSeconds) then
        (true, manager.updateFromNewBroadcast env mnb)
      else (true, manager)

def checkInputsAndAdd (mnb : CMasternodeBroadcast) (manager : CMasternodeMan) :
    InputsOutcome × CMasternodeMan :=
  if env.isOurs mnb then (.ours, manager)
  else if mnb.lastPing.isDefault || !manager.checkPingTime env mnb.lastPing then (.refused, manager)
  else if (manager.find mnb.vin.prevout).any fun pmn => pmn.activeState = .enabled then
    (.known, manager)
  else
    let manager := manager.remove mnb.vin.prevout
    if !env.lockMain then (.postponed, manager.see (env.hashOf mnb) none)
    else if !env.acceptableInputs mnb.vin then (.refused, manager)
    else if env.getInputAge mnb.vin < masternodeMinConfirmations then
      (.postponed, manager.see (env.hashOf mnb) none)
    else if env.isSignedTooEarly mnb then (.refused, manager)
    else (.added, manager.add mnb.toMasternode)

/-- The handler of `mnb`, with whether a masternode is added. -/
def processMnb (mnb : CMasternodeBroadcast) (manager : CMasternodeMan) : Bool × CMasternodeMan :=
  if env.fLiteMode || !env.isBlockchainSynced then (false, manager)
  else if (manager.mapSeenMasternodeBroadcast (env.hashOf mnb)).isSome then (false, manager)
  else
    match (manager.see (env.hashOf mnb) (some mnb)).checkAndUpdate env mnb with
    | (false, checked) => (false, checked)
    | (true, checked) =>
      if !env.isInputAssociatedWithPubkey mnb then (false, checked)
      else
        match checked.checkInputsAndAdd env mnb with
        | (outcome, after) => (outcome = .added, after)

def step : AnnounceEnv × CMasternodeBroadcast → CMasternodeMan → CMasternodeMan
  | (env, mnb), manager => (manager.processMnb env mnb).2

/-! ## Owners -/

/-- The output at the outpoint of an announcement is worth exactly the collateral and pays the
announced key. -/
def OwnsCollateral (mnb : CMasternodeBroadcast) : Prop :=
  ∃ out, env.coins mnb.vin.prevout = some out ∧
    out.nValue = masternodeCollateralLimit * COIN ∧
      out.scriptPubKey = env.scriptFor mnb.pubKeyCollateralAddress

def AddsOwner (manager : CMasternodeMan) (action : AnnounceEnv × CMasternodeBroadcast) : Prop :=
  (manager.processMnb action.1 action.2).1 = true → OwnsCollateral action.1 action.2

/-- An outpoint and a key were announced with a signature by the key when the key owned the
output. -/
def Announced (actions : List (AnnounceEnv × CMasternodeBroadcast)) (prevout : COutPoint)
    (pubKey : CPubKey) : Prop :=
  ∃ action ∈ actions, action.2.vin.prevout = prevout ∧
    action.2.pubKeyCollateralAddress = pubKey ∧
      action.1.verifyBroadcast pubKey action.2 = true ∧ OwnsCollateral action.1 action.2

def Backed (actions : List (AnnounceEnv × CMasternodeBroadcast)) (manager : CMasternodeMan) :
    Prop :=
  (manager.vMasternodes.Pairwise fun first second => first.vin.prevout ≠ second.vin.prevout) ∧
    ∀ mn ∈ manager.vMasternodes, Announced actions mn.vin.prevout mn.pubKeyCollateralAddress

/-- If a transaction has an output that is worth exactly the collateral and pays the announced
key, all its unspent outputs of about that value do. -/
def HasNoOtherCollateral (action : AnnounceEnv × CMasternodeBroadcast) : Prop :=
  action.1.isInputAssociatedWithPubkey action.2 = true → ∀ outpoint out,
    outpoint.hash = action.2.vin.prevout.hash → action.1.coins outpoint = some out →
      masternodeInputValue ≤ out.nValue →
        action.1.isCollateral action.2.pubKeyCollateralAddress out = true

def owners (manager : CMasternodeMan) : List (COutPoint × CPubKey) :=
  manager.vMasternodes.map fun mn => (mn.vin.prevout, mn.pubKeyCollateralAddress)

variable {env} {manager : CMasternodeMan} {mnb : CMasternodeBroadcast}

theorem eq_of_prevout_eq {first second : CMasternode} (here : first ∈ manager.vMasternodes)
    (there : second ∈ manager.vMasternodes) (same : first.vin.prevout = second.vin.prevout) :
    first = second :=
  List.inj_on_of_nodup_map manager.distinct here there same

variable {prevout : COutPoint} {pmn : CMasternode} {action : AnnounceEnv × CMasternodeBroadcast}

theorem mem_of_find (found : manager.find prevout = some pmn) :
    pmn ∈ manager.vMasternodes ∧ pmn.vin.prevout = prevout := by
  refine ⟨List.mem_of_find?_eq_some found, ?_⟩
  simpa using List.find?_some found

theorem owners_update {change : CMasternode → CMasternode} {keeps : ∀ mn, (change mn).vin = mn.vin}
    (keepsKey : ∀ mn ∈ manager.vMasternodes, mn.vin.prevout = prevout →
      (change mn).pubKeyCollateralAddress = mn.pubKeyCollateralAddress) :
    (manager.update prevout change keeps).owners = manager.owners := by
  unfold owners update
  rw [List.map_map]
  refine List.map_congr_left fun mn mem => ?_
  by_cases here : mn.vin.prevout = prevout
  · simp [here, keeps, keepsKey mn mem here]
  · simp [here]

theorem check_key (env : AnnounceEnv) (forceCheck : Bool) (mn : CMasternode) :
    (env.check forceCheck mn).pubKeyCollateralAddress = mn.pubKeyCollateralAddress := by
  unfold AnnounceEnv.check
  simp only
  split_ifs <;> rfl

theorem owners_checkPing (env : AnnounceEnv) (ping : CMasternodePing) (manager : CMasternodeMan) :
    (manager.checkPing env ping).2.owners = manager.owners := by
  have taken : ∀ before : CMasternodeMan,
      (before.update ping.vin.prevout (takePing env ping)
        fun mn => check_vin env true { mn with lastPing := ping }).owners = before.owners :=
    fun _ => owners_update fun mn _ _ => check_key env true { mn with lastPing := ping }
  unfold checkPing
  cases manager.find ping.vin.prevout with
  | none =>
    split_ifs <;> rfl
  | some pmn =>
    simp only
    split_ifs <;> try rfl
    exact taken _

theorem owners_updateFromNewBroadcast (found : manager.find mnb.vin.prevout = some pmn)
    (sameKey : pmn.pubKeyCollateralAddress = mnb.pubKeyCollateralAddress) :
    (manager.updateFromNewBroadcast env mnb).owners = manager.owners := by
  obtain ⟨mem, here⟩ := mem_of_find found
  have taken : (manager.update mnb.vin.prevout (takeBroadcast mnb) fun _ => rfl).owners =
      manager.owners := by
    refine owners_update fun mn inside there => ?_
    rw [eq_of_prevout_eq inside mem (there.trans here.symm)]
    exact sameKey.symm
  have withPing : ∀ before : CMasternodeMan,
      (before.update mnb.vin.prevout (withPing mnb.lastPing) fun _ => rfl).owners = before.owners :=
    fun _ => owners_update fun _ _ _ => rfl
  unfold updateFromNewBroadcast
  rw [owners_update fun mn _ _ => check_key env false mn]
  split_ifs
  · exact (withPing _).trans taken
  · have pinged := owners_checkPing env mnb.lastPing
      (manager.update mnb.vin.prevout (takeBroadcast mnb) fun _ => rfl)
    split
    · rename_i failed
      rw [failed] at pinged
      exact pinged.trans taken
    · rename_i passed
      rw [passed] at pinged
      exact (withPing _).trans (pinged.trans taken)

theorem checkAndUpdate_spec (env : AnnounceEnv) (mnb : CMasternodeBroadcast)
    (manager : CMasternodeMan) :
    (manager.checkAndUpdate env mnb).2.owners = manager.owners ∧
      ((manager.checkAndUpdate env mnb).1 = true →
        env.verifyBroadcast mnb.pubKeyCollateralAddress mnb = true) := by
  unfold checkAndUpdate
  cases wellFormed : manager.isWellFormed env mnb with
  | false => exact ⟨rfl, nofun⟩
  | true =>
    have signed : env.verifyBroadcast mnb.pubKeyCollateralAddress mnb = true := by
      unfold isWellFormed at wellFormed
      cases signed : env.verifyBroadcast mnb.pubKeyCollateralAddress mnb with
      | true => rfl
      | false => simp [signed] at wellFormed
    refine ⟨?_, fun _ => signed⟩
    simp only [Bool.not_true, Bool.false_eq_true, ↓reduceIte]
    cases found : manager.find mnb.vin.prevout with
    | none => rfl
    | some pmn =>
      simp only
      split_ifs with older disabled newer
      · rfl
      · rfl
      · simp only [Bool.and_eq_true, decide_eq_true_eq] at newer
        exact owners_updateFromNewBroadcast found newer.1
      · rfl

theorem owners_add (mn : CMasternode) (manager : CMasternodeMan) :
    ∀ owner ∈ (manager.add mn).owners,
      owner ∈ manager.owners ∨ owner = (mn.vin.prevout, mn.pubKeyCollateralAddress) := by
  intro owner mem
  unfold add at mem
  split_ifs at mem
  · rw [owners, List.map_append, List.mem_append, List.map_singleton, List.mem_singleton] at mem
    exact mem
  · exact Or.inl mem

theorem owners_remove (prevout : COutPoint) (manager : CMasternodeMan) :
    (manager.remove prevout).owners ⊆ manager.owners :=
  List.map_subset _ (List.filter_subset_self _)

/-- `CheckInputsAndAdd` adds at most the announced masternode, after `AcceptableInputs`. -/
theorem checkInputsAndAdd_spec (env : AnnounceEnv) (mnb : CMasternodeBroadcast)
    (manager : CMasternodeMan) :
    ((manager.checkInputsAndAdd env mnb).1 = .added → env.acceptableInputs mnb.vin = true) ∧
      ∀ owner ∈ (manager.checkInputsAndAdd env mnb).2.owners, owner ∈ manager.owners ∨
        (manager.checkInputsAndAdd env mnb).1 = .added ∧
          owner = (mnb.vin.prevout, mnb.pubKeyCollateralAddress) := by
  have removed := owners_remove mnb.vin.prevout manager
  unfold checkInputsAndAdd
  split_ifs with ours ping known locked unacceptable young early
  · exact ⟨nofun, fun owner mem => Or.inl mem⟩
  · exact ⟨nofun, fun owner mem => Or.inl mem⟩
  · exact ⟨nofun, fun owner mem => Or.inl mem⟩
  · exact ⟨nofun, fun owner mem => Or.inl (removed mem)⟩
  · exact ⟨nofun, fun owner mem => Or.inl (removed mem)⟩
  · exact ⟨nofun, fun owner mem => Or.inl (removed mem)⟩
  · exact ⟨nofun, fun owner mem => Or.inl (removed mem)⟩
  · refine ⟨fun _ => by simpa using unacceptable, fun owner mem => ?_⟩
    rcases owners_add mnb.toMasternode _ owner mem with before | new
    · exact Or.inl (removed before)
    · exact Or.inr ⟨rfl, new⟩

/-- What the handler of `mnb` can do to the owners. -/
theorem processMnb_spec (env : AnnounceEnv) (mnb : CMasternodeBroadcast)
    (manager : CMasternodeMan) :
    ((manager.processMnb env mnb).1 = true →
        env.verifyBroadcast mnb.pubKeyCollateralAddress mnb = true ∧
          env.isInputAssociatedWithPubkey mnb = true ∧ env.acceptableInputs mnb.vin = true) ∧
      ∀ owner ∈ (manager.processMnb env mnb).2.owners, owner ∈ manager.owners ∨
        (manager.processMnb env mnb).1 = true ∧
          owner = (mnb.vin.prevout, mnb.pubKeyCollateralAddress) := by
  obtain ⟨sameOwners, signed⟩ := checkAndUpdate_spec env mnb
    (manager.see (env.hashOf mnb) (some mnb))
  unfold processMnb
  by_cases off : (env.fLiteMode || !env.isBlockchainSynced) = true
  · rw [if_pos off]
    exact ⟨nofun, fun owner mem => Or.inl mem⟩
  rw [if_neg off]
  by_cases seen : (manager.mapSeenMasternodeBroadcast (env.hashOf mnb)).isSome = true
  · rw [if_pos seen]
    exact ⟨nofun, fun owner mem => Or.inl mem⟩
  rw [if_neg seen]
  cases checks : (manager.see (env.hashOf mnb) (some mnb)).checkAndUpdate env mnb with
  | mk passes checked =>
    rw [checks] at sameOwners signed
    have before : checked.owners = manager.owners := sameOwners
    rw [← before]
    cases passes with
    | false => exact ⟨nofun, fun owner mem => Or.inl mem⟩
    | true =>
      simp only
      cases associated : env.isInputAssociatedWithPubkey mnb with
      | false => exact ⟨nofun, fun owner mem => Or.inl mem⟩
      | true =>
        obtain ⟨accepted, owned⟩ := checkInputsAndAdd_spec env mnb checked
        rw [Bool.not_true, if_neg Bool.false_ne_true, decide_eq_true_eq]
        exact ⟨fun added => ⟨signed rfl, rfl, accepted added⟩, owned⟩

/-! ## Runs -/

theorem addsOwner_of_hasNoOtherCollateral (lone : HasNoOtherCollateral action)
    (manager : CMasternodeMan) :
    manager.AddsOwner action := by
  intro added
  obtain ⟨-, associated, accepted⟩ := (processMnb_spec action.1 action.2 manager).1 added
  unfold AnnounceEnv.acceptableInputs at accepted
  rw [Bool.and_eq_true] at accepted
  cases coin : action.1.coins action.2.vin.prevout with
  | none => simp [coin] at accepted
  | some out =>
    have worth : masternodeInputValue ≤ out.nValue := by simpa [coin] using accepted.2
    have owned := lone associated action.2.vin.prevout out rfl coin worth
    simp only [AnnounceEnv.isCollateral, Bool.and_eq_true, decide_eq_true_eq] at owned
    exact ⟨out, coin, owned⟩

def after (actions : List (AnnounceEnv × CMasternodeBroadcast)) : CMasternodeMan :=
  actions.foldl (fun manager action => step action manager) initial

theorem announced_step {actions : List (AnnounceEnv × CMasternodeBroadcast)}
    (mem : action ∈ actions) (owner : manager.AddsOwner action)
    (announced : ∀ pair ∈ manager.owners, Announced actions pair.1 pair.2) :
    ∀ pair ∈ (step action manager).owners, Announced actions pair.1 pair.2 := by
  intro pair inside
  obtain ⟨checked, owned⟩ := processMnb_spec action.1 action.2 manager
  rcases owned pair inside with before | ⟨added, rfl⟩
  · exact announced pair before
  · exact ⟨action, mem, rfl, rfl, (checked added).1, owner added⟩

/-- **Collateral.** In every run of announcements whose collateral transactions have no other
output that could be taken for the collateral, every masternode that is added owns the output
at its outpoint, and the entries of the list belong to different outputs, each owned by the
key that signed for it. -/
theorem collateral_owned (actions : List (AnnounceEnv × CMasternodeBroadcast))
    (lone : ∀ action ∈ actions, HasNoOtherCollateral action) :
    RunMeets (total step) AddsOwner actions initial ∧ (after actions).Backed actions := by
  have owner : ∀ action ∈ actions, ∀ manager : CMasternodeMan, manager.AddsOwner action :=
    fun action mem manager => addsOwner_of_hasNoOtherCollateral (lone action mem) manager
  refine ⟨RunMeets.of_forall owner initial, List.pairwise_map.mp (after actions).distinct, ?_⟩
  have announced : ∀ pair ∈ (after actions).owners, Announced actions pair.1 pair.2 := by
    refine run_invariant (fun manager => ∀ pair ∈ owners manager, Announced actions pair.1 pair.2)
      (fun action mem before next backed stepped => ?_) (run_total step actions initial) ?_
    · cases stepped
      exact announced_step mem (owner action mem before) backed
    · exact nofun
  exact fun mn mem => announced _ (List.mem_map_of_mem mem)

/-- A node that knows one transaction, with all its outputs unspent. -/
def sampleAnnounceEnv (tx : CTransaction) : AnnounceEnv where
  fLiteMode := false
  isBlockchainSynced := true
  shutdownRequested := false
  isMain := true
  adjustedTime := 1000
  time := 1000
  minPaymentsProto := 70000
  keyID := fun pubKey => List.replicate 20 (pubKey.headD 0)
  verifyBroadcast := fun _ _ => true
  verifyPing := fun _ _ => true
  broadcastHash := fun sigTime _ => BitVec.ofInt 256 sigTime
  isRecentBlock := fun _ => true
  activeMasternode := none
  lockMain := true
  coins := fun outpoint => if outpoint.hash = tx.hash then tx.vout[outpoint.n.toNat]? else none
  getTransaction := fun hash => if hash = tx.hash then some (tx, 1) else none
  acceptsInput := fun _ => true
  getInputAge := fun _ => 100
  confirmationTime := fun _ => some 900
  found := by
    intro outpoint out coin
    split_ifs at coin with same
    exact ⟨tx, 1, if_pos same, coin⟩

def sampleOwn : CTxOut := .of (5000 * COIN) ((sampleAnnounceEnv CTransaction.empty).scriptFor [1])

def sampleCollateral (other : CTxOut) : CTransaction := ⟨9, 1, [], [sampleOwn, other], 0⟩

def sampleMnb (n : UInt32) : CMasternodeBroadcast :=
  ⟨⟨⟨9, n⟩, [], 0xffffffff⟩, ⟨[], 56740⟩, [1], [2], [], 1000 - n.toNat, 70000,
    ⟨⟨⟨9, n⟩, [], 0xffffffff⟩, 5, 1000, [], 1⟩, 1⟩

/-- A key announces both outputs of a transaction, each its collateral. -/
def sampleAnnouncements : List (AnnounceEnv × CMasternodeBroadcast) :=
  [0, 1].map fun n => (sampleAnnounceEnv (sampleCollateral sampleOwn), sampleMnb n)

theorem collateral_owned_sample :
    RunMeets (total step) AddsOwner sampleAnnouncements initial ∧
      (after sampleAnnouncements).Backed sampleAnnouncements ∧
      (after sampleAnnouncements).vMasternodes.length = 2 := by
  have owned : ∀ action ∈ sampleAnnouncements, HasNoOtherCollateral action := by
    intro action mem _ outpoint out here coin _
    obtain ⟨n, -, rfl⟩ := List.mem_map.mp mem
    have listed : out ∈ [sampleOwn, sampleOwn] := by
      simp only [sampleAnnounceEnv] at coin
      split_ifs at coin
      exact List.mem_of_getElem? coin
    obtain rfl : out = sampleOwn := by simpa using listed
    rfl
  obtain ⟨adds, backed⟩ := collateral_owned sampleAnnouncements owned
  exact ⟨adds, backed, by decide⟩

/-- The key announces the other output of the transaction, which is larger and not its own. -/
theorem not_collateral_owned_other :
    ¬∀ actions, RunMeets (total step) AddsOwner actions initial ∧
      (after actions).Backed actions := by
  intro owned
  obtain ⟨⟨owner, -⟩, -⟩ := owned
    [(sampleAnnounceEnv (sampleCollateral (.of (6000 * COIN) [])), sampleMnb 1)]
  obtain ⟨out, coin, worth, -⟩ := owner (by decide)
  have other : out = .of (6000 * COIN) [] := (Option.some_inj.mp coin).symm
  rw [other] at worth
  exact absurd worth (by decide)

end CMasternodeMan

end DogeCash
