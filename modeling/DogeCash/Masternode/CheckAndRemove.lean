import DogeCash.Network.AddrMan

/-! # The masternode list and what is seen of it

An announcement for a masternode that is not enabled removes the old entry before its own checks,
so that a later failure leaves neither. `CheckAndRemove` goes over the list and the maps around it.
`mapSeenSyncMNB` is to lose the hashes that `mapSeenMasternodeBroadcast` loses; the loop over the
expired broadcasts takes the hash to erase from the element after the one that it has erased.
-/

namespace DogeCash

open List (map_cons mem_cons mem_cons_self mem_filter mem_map mem_map_of_mem)

namespace CMasternodeMan

variable {env : AnnounceEnv} {manager : CMasternodeMan} {mnb : CMasternodeBroadcast}

/-- The outcomes for which `CheckInputsAndAdd` returns false. -/
def InputsOutcome.isRejected (outcome : InputsOutcome) : Bool :=
  outcome = .refused || outcome = .postponed

def passesPing (env : AnnounceEnv) (mnb : CMasternodeBroadcast) (manager : CMasternodeMan) : Bool :=
  !mnb.lastPing.isDefault && manager.checkPingTime env mnb.lastPing

theorem not_enabled_of_find {prevout : COutPoint}
    (absent : (manager.find prevout).any (fun pmn => pmn.activeState = .enabled) = false) :
    ∀ mn ∈ manager.vMasternodes, mn.vin.prevout = prevout → mn.activeState ≠ .enabled := by
  intro mn mem here enabled
  cases search : manager.find prevout with
  | none => exact absurd (List.find?_eq_none.mp search mn mem) (by simp [here])
  | some pmn =>
    obtain ⟨inside, there⟩ := mem_of_find search
    rw [eq_of_prevout_eq inside mem (there.trans here.symm)] at search
    rw [search, Option.any_some, enabled] at absent
    cases absent

theorem vMasternodes_of_rejected
    (rejected : InputsOutcome.isRejected (manager.checkInputsAndAdd env mnb).1 = true) :
    (passesPing env mnb manager = false ∧
        (manager.checkInputsAndAdd env mnb).2.vMasternodes = manager.vMasternodes) ∨
      (passesPing env mnb manager = true ∧
        (manager.find mnb.vin.prevout).any (fun pmn => pmn.activeState = .enabled) = false ∧
        (manager.checkInputsAndAdd env mnb).2.vMasternodes =
          (manager.remove mnb.vin.prevout).vMasternodes) := by
  have passes : (mnb.lastPing.isDefault || !manager.checkPingTime env mnb.lastPing) =
      !passesPing env mnb manager := by
    rw [passesPing, Bool.not_and, Bool.not_not]
  unfold checkInputsAndAdd at rejected ⊢
  simp only [passes] at rejected ⊢
  split_ifs at rejected ⊢ with ours ping known locked unacceptable young early
  · cases rejected
  · exact .inl ⟨by simpa using ping, rfl⟩
  · cases rejected
  · exact .inr ⟨by simpa using ping, Bool.not_eq_true _ ▸ known, rfl⟩
  · exact .inr ⟨by simpa using ping, Bool.not_eq_true _ ▸ known, rfl⟩
  · exact .inr ⟨by simpa using ping, Bool.not_eq_true _ ▸ known, rfl⟩
  · exact .inr ⟨by simpa using ping, Bool.not_eq_true _ ▸ known, rfl⟩
  · cases rejected

def lockedAnnounceEnv : AnnounceEnv :=
  { sampleAnnounceEnv (sampleCollateral (.of 7 [])) with lockMain := false }

def expiredManager : CMasternodeMan where
  vMasternodes := [{ (sampleMnb 0).toMasternode with activeState := .expired }]
  mapSeenMasternodeBroadcast := fun _ => none
  distinct := List.nodup_singleton _

end CMasternodeMan

/-! ## The cleanup -/

/-- `mapSeenMasternodeBroadcast`, in the order of its keys, with every announcement under its
hash. -/
structure SeenBroadcasts (hashOf : CMasternodeBroadcast → UInt256) where
  entries : List (UInt256 × CMasternodeBroadcast)
  sorted : entries.Pairwise fun first second => first.1.toNat < second.1.toNat
  keyed : ∀ entry ∈ entries, hashOf entry.2 = entry.1

/-- `mapSeenSyncMNB` -/
abbrev SyncMap := UInt256 → Option Int

def SyncMap.erase (hash : UInt256) (sync : SyncMap) : SyncMap := Function.update sync hash none

theorem SyncMap.erase_self (hash : UInt256) (sync : SyncMap) : sync.erase hash hash = none :=
  Function.update_self ..

theorem SyncMap.erase_of_ne {hash erased : UInt256} (other : hash ≠ erased) (sync : SyncMap) :
    sync.erase erased hash = sync hash := by
  rw [SyncMap.erase, Function.update_of_ne other]

namespace SeenBroadcasts

variable {hashOf : CMasternodeBroadcast → UInt256} (seen : SeenBroadcasts hashOf)

def keys : List UInt256 := seen.entries.map Prod.fst

def filter (keep : CMasternodeBroadcast → Bool) : SeenBroadcasts hashOf where
  entries := seen.entries.filter fun entry => keep entry.2
  sorted := seen.sorted.sublist List.filter_sublist
  keyed := fun entry mem => seen.keyed entry (List.mem_of_mem_filter mem)

def Loses (after : SeenBroadcasts hashOf) (hash : UInt256) : Prop :=
  hash ∈ seen.keys ∧ hash ∉ after.keys

instance (after : SeenBroadcasts hashOf) (hash : UInt256) : Decidable (seen.Loses after hash) :=
  inferInstanceAs (Decidable (_ ∧ _))

end SeenBroadcasts

/-- The lists and maps of `CMasternodeMan`, with `mapSeenSyncMNB` of `CMasternodeSync`. -/
structure MasternodeMaps (hashOf : CMasternodeBroadcast → UInt256) where
  vMasternodes : List CMasternode
  mAskedUsForMasternodeList : List (CNetAddr × Int)
  mWeAskedForMasternodeList : List (CNetAddr × Int)
  mWeAskedForMasternodeListEntry : List (COutPoint × Int)
  mapSeenMasternodeBroadcast : SeenBroadcasts hashOf
  mapSeenMasternodePing : List (UInt256 × CMasternodePing)
  mapSeenSyncMNB : SyncMap

namespace AnnounceEnv

variable (env : AnnounceEnv)

/-- `CheckAndRemove` takes the masternode off the list. -/
def isInactive (forceExpiredRemoval : Bool) (mn : CMasternode) : Bool :=
  mn.activeState = .remove || mn.activeState = .vinSpent ||
    (forceExpiredRemoval && mn.activeState = .expired) || mn.protocolVersion < env.minPaymentsProto

def isForgotten (ping : CMasternodePing) : Bool :=
  ping.sigTime < env.time - masternodeRemovalSeconds * 2

end AnnounceEnv

/-- The loop over the expired announcements, as far as it concerns `mapSeenSyncMNB`. The iterator
has moved on when the hash of its announcement is taken; nothing comes back where it is then at
the end. -/
def sweepSync (hashOf : CMasternodeBroadcast → UInt256) (expired : CMasternodeBroadcast → Bool) :
    List (UInt256 × CMasternodeBroadcast) → SyncMap → Option SyncMap
  | [], sync => some sync
  | entry :: rest, sync =>
    if expired entry.2 then
      match rest.head? with
      | none => none
      | some next => sweepSync hashOf expired rest (sync.erase (hashOf next.2))
    else sweepSync hashOf expired rest sync

namespace MasternodeMaps

variable {hashOf : CMasternodeBroadcast → UInt256}

/-- Erase the announcements that were seen for a removed masternode, and let it be asked for. -/
def forget (mn : CMasternode) (maps : MasternodeMaps hashOf) : MasternodeMaps hashOf :=
  { maps with
    mapSeenMasternodeBroadcast := maps.mapSeenMasternodeBroadcast.filter fun mnb => mnb.vin ≠ mn.vin
    mWeAskedForMasternodeListEntry :=
      maps.mWeAskedForMasternodeListEntry.filter fun asked => asked.1 ≠ mn.vin.prevout
    mapSeenSyncMNB :=
      ((maps.mapSeenMasternodeBroadcast.entries.filter fun entry => entry.2.vin = mn.vin).map
        Prod.fst).foldr SyncMap.erase maps.mapSeenSyncMNB }

variable (env : AnnounceEnv)

def removeInactive (forceExpiredRemoval : Bool) (maps : MasternodeMaps hashOf) :
    MasternodeMaps hashOf :=
  (maps.vMasternodes.filter (env.isInactive forceExpiredRemoval)).foldl
    (fun maps mn => maps.forget mn)
    { maps with
      vMasternodes := maps.vMasternodes.filter fun mn => !env.isInactive forceExpiredRemoval mn }

def check (maps : MasternodeMaps hashOf) : MasternodeMaps hashOf :=
  { maps with vMasternodes := maps.vMasternodes.map (env.check false) }

/-- The three loops over what was asked for. -/
def dropAsked (maps : MasternodeMaps hashOf) : MasternodeMaps hashOf :=
  { maps with
    mAskedUsForMasternodeList :=
      maps.mAskedUsForMasternodeList.filter fun asked => env.time ≤ asked.2
    mWeAskedForMasternodeList :=
      maps.mWeAskedForMasternodeList.filter fun asked => env.time ≤ asked.2
    mWeAskedForMasternodeListEntry :=
      maps.mWeAskedForMasternodeListEntry.filter fun asked => env.time ≤ asked.2 }

def checkAndRemove (forceExpiredRemoval : Bool) (maps : MasternodeMaps env.hashOf) :
    Option (MasternodeMaps env.hashOf) :=
  let maps := ((maps.check env).removeInactive env forceExpiredRemoval).dropAsked env
  (sweepSync env.hashOf (fun mnb => env.isForgotten mnb.lastPing)
      maps.mapSeenMasternodeBroadcast.entries maps.mapSeenSyncMNB).map fun sync =>
    { maps with
      mapSeenMasternodeBroadcast :=
        maps.mapSeenMasternodeBroadcast.filter fun mnb => !env.isForgotten mnb.lastPing
      mapSeenSyncMNB := sync
      mapSeenMasternodePing :=
        maps.mapSeenMasternodePing.filter fun entry => !env.isForgotten entry.2 }

/-- `mapSeenSyncMNB` has lost the hashes that `mapSeenMasternodeBroadcast` has lost. -/
def InStep (before after : MasternodeMaps hashOf) : Prop :=
  ∀ hash, after.mapSeenSyncMNB hash =
    if before.mapSeenMasternodeBroadcast.Loses after.mapSeenMasternodeBroadcast hash then none
    else before.mapSeenSyncMNB hash

def isOfInactive (forceExpiredRemoval : Bool) (maps : MasternodeMaps hashOf)
    (mnb : CMasternodeBroadcast) : Bool :=
  ((maps.vMasternodes.map (env.check false)).filter (env.isInactive forceExpiredRemoval)).any
    fun mn => mnb.vin = mn.vin

def leftAnnouncements (forceExpiredRemoval : Bool) (maps : MasternodeMaps hashOf) :
    List (UInt256 × CMasternodeBroadcast) :=
  maps.mapSeenMasternodeBroadcast.entries.filter fun entry =>
    !maps.isOfInactive env forceExpiredRemoval entry.2

/-- The announcements of removed masternodes and those with expired pings are forgotten, and the
hashes that `mapSeenSyncMNB` has lost are theirs. -/
def CleansUp (forceExpiredRemoval : Bool) (before after : MasternodeMaps hashOf) : Prop :=
  after.mapSeenMasternodeBroadcast = before.mapSeenMasternodeBroadcast.filter (fun mnb =>
      !before.isOfInactive env forceExpiredRemoval mnb && !env.isForgotten mnb.lastPing) ∧
    before.InStep after

end MasternodeMaps

/-- The loop over the expired announcements erases what it should: the last one has not expired,
and where one of two neighbours has expired and the other has not, the hash of the second is not in
`mapSeenSyncMNB`. The flag says whether the announcement before these has expired. -/
def SweepsCleanly (expired : CMasternodeBroadcast → Bool) (sync : SyncMap) :
    Bool → List (UInt256 × CMasternodeBroadcast) → Prop
  | before, [] => before = false
  | before, entry :: rest =>
    (expired entry.2 ≠ before → sync entry.1 = none) ∧
      SweepsCleanly expired sync (expired entry.2) rest

/-! ## The loop over the expired announcements -/

section Sweep

variable {hashOf : CMasternodeBroadcast → UInt256} {expired : CMasternodeBroadcast → Bool}
  {entry : UInt256 × CMasternodeBroadcast} {rest entries : List (UInt256 × CMasternodeBroadcast)}
  {sync after : SyncMap} {hash : UInt256}

/-- What the loop does between two announcements: where the first has expired, the hash of the
second is erased. -/
def eraseNext (hashOf : CMasternodeBroadcast → UInt256) (before : Bool)
    (entries : List (UInt256 × CMasternodeBroadcast)) (sync : SyncMap) : Option SyncMap :=
  if before then entries.head?.map fun next => sync.erase (hashOf next.2) else some sync

def sweepAfter (hashOf : CMasternodeBroadcast → UInt256) (expired : CMasternodeBroadcast → Bool)
    (before : Bool) (entries : List (UInt256 × CMasternodeBroadcast)) (sync : SyncMap) :
    Option SyncMap :=
  (eraseNext hashOf before entries sync).bind (sweepSync hashOf expired entries)

def forgetExpired (expired : CMasternodeBroadcast → Bool)
    (entries : List (UInt256 × CMasternodeBroadcast)) (sync : SyncMap) : SyncMap :=
  ((entries.filter fun entry => expired entry.2).map Prod.fst).foldr SyncMap.erase sync

theorem foldr_erase (hashes : List UInt256) (sync : SyncMap) (hash : UInt256) :
    hashes.foldr SyncMap.erase sync hash = if hash ∈ hashes then none else sync hash := by
  induction hashes with
  | nil => rw [List.foldr_nil, if_neg List.not_mem_nil]
  | cons first hashes ih =>
    rw [List.foldr_cons, SyncMap.erase, Function.update_apply, ih]
    by_cases same : hash = first
    · rw [if_pos same, if_pos (mem_cons.mpr (Or.inl same))]
    · rw [if_neg same]
      exact if_congr (by rw [mem_cons, or_iff_right same]) rfl rfl

theorem sweepSync_cons (entry : UInt256 × CMasternodeBroadcast)
    (rest : List (UInt256 × CMasternodeBroadcast)) (sync : SyncMap) :
    sweepSync hashOf expired (entry :: rest) sync =
      sweepAfter hashOf expired (expired entry.2) rest sync := by
  rw [sweepSync, sweepAfter, eraseNext]
  cases expired entry.2 with
  | false => rfl
  | true => cases rest <;> rfl

theorem sweepAfter_cons (before : Bool) (keyed : hashOf entry.2 = entry.1) :
    sweepAfter hashOf expired before (entry :: rest) sync =
      sweepAfter hashOf expired (expired entry.2) rest
        (if before then sync.erase entry.1 else sync) := by
  rw [sweepAfter, eraseNext]
  cases before with
  | false => exact sweepSync_cons entry rest sync
  | true =>
    rw [if_pos rfl, if_pos rfl, List.head?_cons, Option.map_some, Option.bind_some, keyed]
    exact sweepSync_cons entry rest _

theorem sweepAfter_frame (before : Bool) (keyed : ∀ entry ∈ entries, hashOf entry.2 = entry.1)
    (swept : sweepAfter hashOf expired before entries sync = some after)
    (other : hash ∉ entries.map Prod.fst) : after hash = sync hash := by
  induction entries generalizing before sync with
  | nil =>
    cases before with
    | false =>
      cases swept
      rfl
    | true => cases swept
  | cons entry rest ih =>
    rw [sweepAfter_cons before (keyed entry mem_cons_self)] at swept
    rw [map_cons, mem_cons, not_or] at other
    rw [ih _ (fun later mem => keyed later (List.mem_cons_of_mem _ mem)) swept other.2]
    cases before with
    | false => rfl
    | true => exact sync.erase_of_ne other.1

theorem sweepsCleanly_congr {other : SyncMap} {before : Bool}
    (same : ∀ entry ∈ entries, sync entry.1 = other entry.1) :
    SweepsCleanly expired sync before entries ↔ SweepsCleanly expired other before entries := by
  induction entries generalizing before with
  | nil => exact Iff.rfl
  | cons entry rest ih =>
    rw [SweepsCleanly, SweepsCleanly, same entry mem_cons_self,
      ih fun later mem => same later (List.mem_cons_of_mem _ mem)]

theorem forgetExpired_cons (entry : UInt256 × CMasternodeBroadcast)
    (rest : List (UInt256 × CMasternodeBroadcast)) (sync : SyncMap) :
    forgetExpired expired (entry :: rest) sync =
      if expired entry.2 then (forgetExpired expired rest sync).erase entry.1
      else forgetExpired expired rest sync := by
  rw [forgetExpired, List.filter_cons]
  cases expired entry.2 <;> rfl

theorem forgetExpired_of_not_mem (other : hash ∉ entries.map Prod.fst) :
    forgetExpired expired entries sync hash = sync hash := by
  rw [forgetExpired, foldr_erase, if_neg]
  exact fun mem => other (List.map_subset _ (List.filter_subset_self _) mem)

theorem forgetExpired_congr {other : SyncMap} (same : sync hash = other hash) :
    forgetExpired expired entries sync hash = forgetExpired expired entries other hash := by
  rw [forgetExpired, forgetExpired, foldr_erase, foldr_erase, same]

theorem erase_eq_forgetExpired_iff (before : Bool) (fresh : entry.1 ∉ rest.map Prod.fst) :
    (if before then sync.erase entry.1 else sync) entry.1 =
        forgetExpired expired (entry :: rest) sync entry.1 ↔
      (expired entry.2 ≠ before → sync entry.1 = none) := by
  rw [forgetExpired_cons]
  cases before <;> cases expired entry.2 <;>
    simp [SyncMap.erase_self, forgetExpired_of_not_mem fresh, eq_comm]

theorem forgetExpired_erase (before : Bool)
    (due : (if before then sync.erase entry.1 else sync) entry.1 =
      forgetExpired expired (entry :: rest) sync entry.1) (fresh : entry.1 ∉ rest.map Prod.fst) :
    forgetExpired expired rest (if before then sync.erase entry.1 else sync) =
      forgetExpired expired (entry :: rest) sync := by
  funext hash
  by_cases same : hash = entry.1
  · rw [same, forgetExpired_of_not_mem fresh, due]
  · rw [forgetExpired_cons, apply_ite (fun map : SyncMap => map hash),
      SyncMap.erase_of_ne same, ite_self]
    apply forgetExpired_congr
    rw [apply_ite (fun map : SyncMap => map hash), SyncMap.erase_of_ne same, ite_self]

theorem sweepAfter_eq_iff (before : Bool) (keyed : ∀ entry ∈ entries, hashOf entry.2 = entry.1)
    (distinct : (entries.map Prod.fst).Nodup) :
    sweepAfter hashOf expired before entries sync = some (forgetExpired expired entries sync) ↔
      SweepsCleanly expired sync before entries := by
  -- The induction is on the announcements; the hash of the first is not touched after them.
  induction entries generalizing before sync with
  | nil => cases before <;> simp [sweepAfter, eraseNext, sweepSync, forgetExpired, SweepsCleanly]
  | cons entry rest ih =>
    rw [map_cons, List.nodup_cons] at distinct
    obtain ⟨fresh, distinctRest⟩ := distinct
    have keyedRest : ∀ later ∈ rest, hashOf later.2 = later.1 :=
      fun later mem => keyed later (List.mem_cons_of_mem _ mem)
    have same : ∀ later ∈ rest,
        (if before then sync.erase entry.1 else sync) later.1 = sync later.1 := by
      intro later mem
      have other : later.1 ≠ entry.1 := fun equal => fresh (equal ▸ mem_map_of_mem mem)
      rw [apply_ite (fun map : SyncMap => map later.1), SyncMap.erase_of_ne other, ite_self]
    rw [sweepAfter_cons before (keyed entry mem_cons_self), SweepsCleanly,
      ← erase_eq_forgetExpired_iff before fresh, ← sweepsCleanly_congr same]
    constructor
    · intro swept
      have due := (sweepAfter_frame _ keyedRest swept fresh).symm
      rw [← forgetExpired_erase before due fresh] at swept
      exact ⟨due, (ih _ keyedRest distinctRest).mp swept⟩
    · intro clean
      rw [← forgetExpired_erase before clean.1 fresh]
      exact (ih _ keyedRest distinctRest).mpr clean.2

end Sweep

/-! ## The maps after the cleanup -/

section Maps

variable {hashOf : CMasternodeBroadcast → UInt256} {seen : SeenBroadcasts hashOf}
  {first second third : MasternodeMaps hashOf} {hash : UInt256}

namespace SeenBroadcasts

theorem eq_of_entries_eq {other : SeenBroadcasts hashOf} (same : seen.entries = other.entries) :
    seen = other := by
  cases seen
  cases other
  cases same
  rfl

theorem keys_nodup (seen : SeenBroadcasts hashOf) : seen.keys.Nodup := by
  refine List.pairwise_map.mpr (seen.sorted.imp fun below same => ?_)
  exact Nat.lt_irrefl _ (congrArg BitVec.toNat same ▸ below)

theorem filter_filter (keep also : CMasternodeBroadcast → Bool) :
    (seen.filter keep).filter also = seen.filter fun mnb => keep mnb && also mnb := by
  apply eq_of_entries_eq
  exact List.filter_filter.trans (List.filter_congr fun entry _ => Bool.and_comm _ _)

theorem keys_filter_subset (keep : CMasternodeBroadcast → Bool) :
    (seen.filter keep).keys ⊆ seen.keys :=
  List.map_subset _ (List.filter_subset_self _)

theorem loses_filter_iff {keep : CMasternodeBroadcast → Bool} :
    seen.Loses (seen.filter keep) hash ↔
      hash ∈ (seen.entries.filter fun entry => !keep entry.2).map Prod.fst := by
  constructor
  · rintro ⟨present, lost⟩
    obtain ⟨entry, mem, rfl⟩ := mem_map.mp present
    refine mem_map_of_mem (mem_filter.mpr ⟨mem, ?_⟩)
    by_contra kept
    rw [Bool.not_eq_true', Bool.not_eq_false] at kept
    exact lost (mem_map_of_mem (mem_filter.mpr ⟨mem, kept⟩))
  · intro dropped
    obtain ⟨entry, inside, rfl⟩ := mem_map.mp dropped
    obtain ⟨mem, unkept⟩ := mem_filter.mp inside
    refine ⟨mem_map_of_mem mem, fun stays => ?_⟩
    obtain ⟨other, kept, same⟩ := mem_map.mp stays
    obtain ⟨there, keeps⟩ := mem_filter.mp kept
    rw [List.inj_on_of_nodup_map seen.keys_nodup there mem same] at keeps
    exact absurd keeps (by simpa using unkept)

end SeenBroadcasts

namespace MasternodeMaps

theorem inStep_trans_iff (step : first.InStep second)
    (fewer : second.mapSeenMasternodeBroadcast.keys ⊆ first.mapSeenMasternodeBroadcast.keys)
    (later : third.mapSeenMasternodeBroadcast.keys ⊆ second.mapSeenMasternodeBroadcast.keys) :
    first.InStep third ↔ second.InStep third := by
  refine forall_congr' fun hash => ?_
  have lost : (if first.mapSeenMasternodeBroadcast.Loses third.mapSeenMasternodeBroadcast hash
        then none else first.mapSeenSyncMNB hash) =
      if second.mapSeenMasternodeBroadcast.Loses third.mapSeenMasternodeBroadcast hash then none
        else second.mapSeenSyncMNB hash := by
    rw [step hash]
    simp only [SeenBroadcasts.Loses]
    by_cases here : hash ∈ third.mapSeenMasternodeBroadcast.keys
    · simp [here, later here]
    · by_cases there : hash ∈ second.mapSeenMasternodeBroadcast.keys
      · simp [here, there, fewer there]
      · simp [here, there]
  rw [lost]

theorem forget_inStep (mn : CMasternode) (maps : MasternodeMaps hashOf) :
    maps.InStep (maps.forget mn) := by
  intro hash
  refine (foldr_erase _ _ hash).trans (if_congr ?_ rfl rfl)
  rw [forget, SeenBroadcasts.loses_filter_iff]
  simp

theorem foldl_forget (removed : List CMasternode) (maps : MasternodeMaps hashOf) :
    (removed.foldl (fun maps mn => maps.forget mn) maps).mapSeenMasternodeBroadcast =
        maps.mapSeenMasternodeBroadcast.filter
          (fun mnb => !removed.any fun mn => mnb.vin = mn.vin) ∧
      maps.InStep (removed.foldl (fun maps mn => maps.forget mn) maps) := by
  induction removed generalizing maps with
  | nil =>
    refine ⟨SeenBroadcasts.eq_of_entries_eq ?_, fun hash => ?_⟩
    · exact (List.filter_eq_self.mpr fun entry _ => rfl).symm
    · rw [if_neg fun lost => lost.2 lost.1]
      rfl
  | cons mn removed ih =>
    rw [List.foldl_cons]
    obtain ⟨left, step⟩ := ih (maps.forget mn)
    constructor
    · rw [left, forget, SeenBroadcasts.filter_filter]
      simp
    · refine (inStep_trans_iff (forget_inStep mn maps) ?_ ?_).mpr step
      · exact SeenBroadcasts.keys_filter_subset _
      · rw [left]
        exact SeenBroadcasts.keys_filter_subset _

variable {env : AnnounceEnv} {force : Bool}

theorem removeInactive_check (env : AnnounceEnv) (force : Bool) (maps : MasternodeMaps hashOf) :
    (((maps.check env).removeInactive env force).dropAsked env).mapSeenMasternodeBroadcast =
        maps.mapSeenMasternodeBroadcast.filter (fun mnb => !maps.isOfInactive env force mnb) ∧
      maps.InStep (((maps.check env).removeInactive env force).dropAsked env) :=
  foldl_forget _ { maps.check env with
    vMasternodes := (maps.check env).vMasternodes.filter fun mn => !env.isInactive force mn }

theorem checkAndRemove_iff_sweepSync {maps middle : MasternodeMaps env.hashOf}
    (reached : ((maps.check env).removeInactive env force).dropAsked env = middle) :
    (∃ after, maps.checkAndRemove env force = some after ∧ maps.CleansUp env force after) ↔
      sweepSync env.hashOf (fun mnb => env.isForgotten mnb.lastPing)
          middle.mapSeenMasternodeBroadcast.entries middle.mapSeenSyncMNB =
        some (forgetExpired (fun mnb => env.isForgotten mnb.lastPing)
          middle.mapSeenMasternodeBroadcast.entries middle.mapSeenSyncMNB) := by
  obtain ⟨left, step⟩ := removeInactive_check env force maps
  rw [reached] at left step
  have due (hash : UInt256) : forgetExpired (fun mnb => env.isForgotten mnb.lastPing)
      middle.mapSeenMasternodeBroadcast.entries middle.mapSeenSyncMNB hash =
        if middle.mapSeenMasternodeBroadcast.Loses (middle.mapSeenMasternodeBroadcast.filter
            fun mnb => !env.isForgotten mnb.lastPing) hash then none
        else middle.mapSeenSyncMNB hash := by
    refine (foldr_erase _ _ hash).trans (if_congr ?_ rfl rfl)
    rw [SeenBroadcasts.loses_filter_iff]
    simp
  have whole (after : MasternodeMaps env.hashOf)
      (swept : after.mapSeenMasternodeBroadcast = middle.mapSeenMasternodeBroadcast.filter
        fun mnb => !env.isForgotten mnb.lastPing) :
      maps.InStep after ↔ middle.InStep after := by
    refine inStep_trans_iff step ?_ ?_
    · rw [left]
      exact SeenBroadcasts.keys_filter_subset _
    · rw [swept]
      exact SeenBroadcasts.keys_filter_subset _
  unfold checkAndRemove
  rw [reached]
  constructor
  · rintro ⟨after, result, -, inStep⟩
    obtain ⟨sync, swept, rfl⟩ := Option.map_eq_some_iff.mp result
    rw [swept]
    exact congrArg some (funext fun hash => ((whole _ rfl).mp inStep hash).trans (due hash).symm)
  · intro swept
    refine ⟨_, Option.map_eq_some_iff.mpr ⟨_, swept, rfl⟩, ?_, (whole _ rfl).mpr due⟩
    rw [← SeenBroadcasts.filter_filter, ← left]

/-- **Cleanup.** `CheckAndRemove` never looks at the end of the map, and `mapSeenSyncMNB` loses
exactly the hashes of the announcements that are forgotten, exactly when the loop over the expired
announcements sweeps those cleanly that the removed masternodes leave. -/
theorem checkAndRemove_cleansUp_iff (env : AnnounceEnv) (force : Bool)
    (maps : MasternodeMaps env.hashOf) :
    (∃ after, maps.checkAndRemove env force = some after ∧ maps.CleansUp env force after) ↔
      SweepsCleanly (fun mnb => env.isForgotten mnb.lastPing) maps.mapSeenSyncMNB false
        (maps.leftAnnouncements env force) := by
  obtain ⟨left, step⟩ := removeInactive_check env force maps
  generalize reached : ((maps.check env).removeInactive env force).dropAsked env = middle
    at left step
  have entries : middle.mapSeenMasternodeBroadcast.entries = maps.leftAnnouncements env force :=
    congrArg SeenBroadcasts.entries left
  have same : ∀ entry ∈ maps.leftAnnouncements env force,
      middle.mapSeenSyncMNB entry.1 = maps.mapSeenSyncMNB entry.1 := by
    intro entry mem
    rw [step entry.1, if_neg]
    exact fun lost => lost.2 (mem_map_of_mem (entries ▸ mem))
  rw [checkAndRemove_iff_sweepSync reached, ← sweepsCleanly_congr same, ← entries]
  exact sweepAfter_eq_iff false middle.mapSeenMasternodeBroadcast.keyed
    middle.mapSeenMasternodeBroadcast.keys_nodup

end MasternodeMaps

end Maps

namespace MasternodeMaps

def timedMnb (sigTime pingTime : Int) : CMasternodeBroadcast :=
  { CMasternodeMan.sampleMnb 0 with
    sigTime
    lastPing := { (CMasternodeMan.sampleMnb 0).lastPing with sigTime := pingTime } }

/-- No masternodes, and two announcements of which the first has expired. -/
def twoAnnouncements :
    MasternodeMaps (CMasternodeMan.sampleAnnounceEnv CTransaction.empty).hashOf where
  vMasternodes := []
  mAskedUsForMasternodeList := []
  mWeAskedForMasternodeList := []
  mWeAskedForMasternodeListEntry := []
  mapSeenMasternodeBroadcast :=
    { entries := [(1, timedMnb 1 (-20000)), (2, timedMnb 2 1000)]
      sorted := by decide
      keyed := by decide }
  mapSeenMasternodePing := []
  mapSeenSyncMNB := fun hash => if hash = 1 ∨ hash = 2 then some 1 else none

/-- The hash of the second announcement, which stays, is erased instead of that of the first. -/
theorem not_cleansUp_twoAnnouncements :
    ¬∃ after, twoAnnouncements.checkAndRemove (CMasternodeMan.sampleAnnounceEnv CTransaction.empty)
        false = some after ∧
      twoAnnouncements.CleansUp (CMasternodeMan.sampleAnnounceEnv CTransaction.empty) false
        after := by
  rintro ⟨after, result, seen, inStep⟩
  have kept := inStep 2
  rw [seen, if_neg (by decide)] at kept
  have erased : (twoAnnouncements.checkAndRemove
      (CMasternodeMan.sampleAnnounceEnv CTransaction.empty) false).map
        (fun after => after.mapSeenSyncMNB 2) = some none := by decide
  rw [result, Option.map_some, Option.some_inj, kept] at erased
  exact absurd erased (by decide)

end MasternodeMaps

end DogeCash
