import DogeCash.Wallet.CreateTransaction

/-! # Created transactions balance

Each round of `CreateTransaction` starts with a higher fee, and no fee is above the largest that
may be asked for, so that the loop ends. When it ends well, the coins are worth the payments, the
change and the fee. This takes payments that fit into 64 bits with the largest fee and a cent, and
available coins whose total fits.
-/

namespace DogeCash

open List (map_append map_cons sum_append sum_cons)
open CTxIn (prevout)

def paidTo (kind : CScript → Bool) (vout : List CTxOut) : Int :=
  ((vout.filter fun txout => kind txout.scriptPubKey).map CTxOut.nValue).sum

def requestedFor (kind : CScript → Bool) (vecSend : List (CScript × Int)) : Int :=
  ((vecSend.filter fun payment => kind payment.1).map Prod.snd).sum

section payments

variable {kind : CScript → Bool}

@[simp] theorem paidTo_nil : paidTo kind [] = 0 := rfl

theorem paidTo_cons (txout : CTxOut) (vout : List CTxOut) :
    paidTo kind (txout :: vout) =
      (if kind txout.scriptPubKey then txout.nValue else 0) + paidTo kind vout := by
  unfold paidTo
  rw [List.filter_cons]
  split_ifs with counts
  · rw [map_cons, sum_cons]
  · rw [zero_add]

theorem paidTo_append (first second : List CTxOut) :
    paidTo kind (first ++ second) = paidTo kind first + paidTo kind second := by
  unfold paidTo
  rw [List.filter_append, map_append, sum_append]

theorem requestedFor_cons (payment : CScript × Int) (vecSend : List (CScript × Int)) :
    requestedFor kind (payment :: vecSend) =
      (if kind payment.1 then payment.2 else 0) + requestedFor kind vecSend := by
  unfold requestedFor
  rw [List.filter_cons]
  split_ifs with counts
  · rw [map_cons, sum_cons]
  · rw [zero_add]

theorem paidTo_all (vout : List CTxOut) :
    paidTo (fun _ => true) vout = (vout.map CTxOut.nValue).sum := by
  unfold paidTo
  rw [List.filter_true]

theorem requestedFor_all (vecSend : List (CScript × Int)) :
    requestedFor (fun _ => true) vecSend = (vecSend.map Prod.snd).sum := by
  unfold requestedFor
  rw [List.filter_true]

theorem paidTo_map_of {α : Type} (script : CScript) (value : α → Int) (items : List α) :
    paidTo kind (items.map fun item => .of (value item) script) =
      if kind script then (items.map value).sum else 0 := by
  induction items with
  | nil => simp
  | cons item rest ih =>
    rw [map_cons, paidTo_cons, ih, map_cons, sum_cons]
    change (if kind script then value item else 0) + _ = _
    split_ifs with counts
    · rfl
    · rfl

section

variable {nSplitBlock : Int} (positive : 1 ≤ nSplitBlock)
include positive

theorem sum_shares (share remainder : Int) {count : ℕ} (within : (count : Int) ≤ nSplitBlock) :
    ((List.range count).map fun i : ℕ =>
      if (i : Int) = nSplitBlock - 1 then share + remainder else share).sum =
      count * share + if (count : Int) = nSplitBlock then remainder else 0 := by
  induction count with
  | zero =>
    rw [if_neg (by push_cast; omega)]
    simp
  | succ count ih =>
    have before := ih (by push_cast at within; omega)
    rw [if_neg (by push_cast at within; omega)] at before
    rw [List.range_succ, map_append, sum_append, before, List.map_singleton, List.sum_singleton]
    push_cast
    rw [add_mul, one_mul, add_zero]
    by_cases whole : (count : Int) + 1 = nSplitBlock
    · rw [if_pos (by omega), if_pos whole, add_assoc]
    · rw [if_neg (by omega), if_neg whole, add_zero]

theorem paidTo_splitOuts (payment : CScript × Int) :
    paidTo kind (splitOuts nSplitBlock payment) = if kind payment.1 then payment.2 else 0 := by
  have shape : splitOuts nSplitBlock payment = (List.range nSplitBlock.toNat).map fun i : ℕ =>
      .of (if (i : Int) = nSplitBlock - 1 then
        payment.2.tdiv nSplitBlock + payment.2.tmod nSplitBlock
        else payment.2.tdiv nSplitBlock) payment.1 := by
    refine List.map_congr_left fun i _ => ?_
    split_ifs with last
    · rfl
    · rfl
  have whole : (nSplitBlock.toNat : Int) = nSplitBlock := Int.toNat_of_nonneg (by omega)
  rw [shape, paidTo_map_of, sum_shares positive _ _ whole.le, if_pos whole, whole,
    Int.mul_tdiv_add_tmod]

theorem paidTo_split (vecSend : List (CScript × Int)) :
    paidTo kind (vecSend.flatMap (splitOuts nSplitBlock)) = requestedFor kind vecSend := by
  induction vecSend with
  | nil => rfl
  | cons payment rest ih =>
    rw [List.flatMap_cons, paidTo_append, paidTo_splitOuts positive, ih, requestedFor_cons]

end

end payments

namespace PayingWallet

variable {wallet : PayingWallet} {request : PaymentRequest}

variable {vecSend : List (CScript × Int)} {payees : List CTxOut}

theorem paidTo_mapM (ok : vecSend.mapM wallet.payeeOut = .ok payees) (kind : CScript → Bool) :
    paidTo kind payees = requestedFor kind vecSend := by
  induction vecSend generalizing payees with
  | nil =>
    cases ok
    rfl
  | cons payment rest ih =>
    rw [List.mapM_cons] at ok
    obtain ⟨txout, made, ok⟩ := bind_eq_ok.mp ok
    obtain ⟨others, later, ok⟩ := bind_eq_ok.mp ok
    obtain ⟨-, same⟩ := require_bind_eq_ok.mp made
    cases ok
    cases same
    rw [paidTo_cons, ih later, requestedFor_cons]
    rfl

theorem paidTo_payeeOuts
    (split : ∀ coinControl ∈ request.coinControl, coinControl.fSplitBlock = true →
      1 ≤ coinControl.nSplitBlock) (ok : wallet.payeeOuts request = .ok payees)
    (kind : CScript → Bool) :
    paidTo kind payees = requestedFor kind request.vecSend := by
  unfold payeeOuts at ok
  cases control : request.coinControl with
  | none =>
    rw [control] at ok
    cases ok
    exact paidTo_split le_rfl request.vecSend
  | some coinControl =>
    rw [control] at ok
    dsimp only at ok
    split_ifs at ok with whole
    · exact paidTo_mapM ok kind
    · cases ok
      exact paidTo_split (split coinControl control (by simpa using whole)) request.vecSend

theorem sum_of_addPayment {start nValue : Int} (positive : ∀ payment ∈ vecSend, 0 < payment.2)
    (nonneg : 0 ≤ start) (room : start + (vecSend.map Prod.snd).sum < 2 ^ 63)
    (ok : vecSend.foldlM addPayment start = .ok nValue) :
    nValue = start + (vecSend.map Prod.snd).sum := by
  induction vecSend generalizing start with
  | nil =>
    cases ok
    exact (add_zero _).symm
  | cons payment rest ih =>
    obtain ⟨first, others⟩ := List.forall_mem_cons.mp positive
    have later : 0 ≤ (rest.map Prod.snd).sum :=
      List.sum_nonneg (List.forall_mem_map.mpr fun payment mem => (others payment mem).le)
    rw [map_cons, sum_cons, ← add_assoc] at room ⊢
    have exact' : addInt64 start payment.2 = start + payment.2 :=
      addInt64_of_fits (by omega) (by omega)
    obtain ⟨next, added, final⟩ := foldlM_cons_eq_ok.mp ok
    obtain ⟨-, added⟩ := require_bind_eq_ok.mp added
    cases added
    rw [exact'] at final
    exact ih others (by omega) room final

theorem nonneg_of_mapM (positive : ∀ payment ∈ vecSend, 0 < payment.2)
    (ok : vecSend.mapM wallet.payeeOut = .ok payees) : ∀ txout ∈ payees, 0 ≤ txout.nValue := by
  induction vecSend generalizing payees with
  | nil =>
    cases ok
    exact List.forall_mem_nil _
  | cons payment rest ih =>
    obtain ⟨first, later⟩ := List.forall_mem_cons.mp positive
    rw [List.mapM_cons] at ok
    obtain ⟨txout, made, ok⟩ := bind_eq_ok.mp ok
    obtain ⟨others, paid, ok⟩ := bind_eq_ok.mp ok
    obtain ⟨-, same⟩ := require_bind_eq_ok.mp made
    cases ok
    cases same
    exact List.forall_mem_cons.mpr ⟨first.le, ih later paid⟩

/-- Every output for a payment of a positive amount has a value that is not negative. -/
theorem payeeOuts_nonneg (positive : ∀ payment ∈ request.vecSend, 0 < payment.2)
    (split : ∀ coinControl ∈ request.coinControl, coinControl.fSplitBlock = true →
      1 ≤ coinControl.nSplitBlock) (ok : wallet.payeeOuts request = .ok payees) :
    ∀ txout ∈ payees, 0 ≤ txout.nValue := by
  have shares : ∀ nSplitBlock : Int, 1 ≤ nSplitBlock →
      ∀ txout ∈ request.vecSend.flatMap (splitOuts nSplitBlock), 0 ≤ txout.nValue := by
    intro nSplitBlock least txout mem
    obtain ⟨payment, sent, share⟩ := List.mem_flatMap.mp mem
    obtain ⟨i, -, rfl⟩ := List.mem_map.mp share
    have quotient := Int.tdiv_nonneg (positive payment sent).le (show 0 ≤ nSplitBlock by omega)
    have remainder := Int.tmod_nonneg nSplitBlock (positive payment sent).le
    split_ifs
    · exact add_nonneg quotient remainder
    · exact quotient
  unfold payeeOuts at ok
  cases control : request.coinControl with
  | none =>
    rw [control] at ok
    cases ok
    exact shares 1 le_rfl
  | some coinControl =>
    rw [control] at ok
    dsimp only at ok
    split_ifs at ok with whole
    · exact nonneg_of_mapM positive ok
    · cases ok
      exact shares _ (split coinControl control (by simpa using whole))

def IsChangeScript (wallet : PayingWallet) (request : PaymentRequest) (script : CScript) : Prop :=
  match request.coinControl.bind CCoinControl.destChange with
  | some scriptChange => script = scriptChange
  | none => ∃ round, wallet.reservedScript round = some script

/-- Outputs with change: none, an output of its own, or part of the output that pays the change
address already. -/
inductive WithChange (wallet : PayingWallet) (request : PaymentRequest) :
    List CTxOut → Int → List CTxOut → Prop
  | without (payees : List CTxOut) : WithChange wallet request payees 0 payees
  | separate (before after : List CTxOut) (nChange : Int) (scriptChange : CScript)
      (address : wallet.IsChangeScript request scriptChange) (positive : 0 < nChange) :
      WithChange wallet request (before ++ after) nChange
        (before ++ .of nChange scriptChange :: after)
  | combined (before after : List CTxOut) (nChange : Int) (txout : CTxOut)
      (address : wallet.IsChangeScript request txout.scriptPubKey) (positive : 0 < nChange) :
      WithChange wallet request (before ++ txout :: after) nChange
        (before ++ { txout with nValue := txout.nValue + nChange } :: after)

theorem WithChange.sum_eq {payees vout : List CTxOut} {nChange : Int}
    (change : wallet.WithChange request payees nChange vout) :
    (vout.map CTxOut.nValue).sum = (payees.map CTxOut.nValue).sum + nChange := by
  cases change with
  | without => exact (add_zero _).symm
  | separate before after nChange scriptChange address positive =>
    simp only [map_append, map_cons, sum_append, sum_cons, CTxOut.of_nValue]
    omega
  | combined before after nChange txout address positive =>
    simp only [map_append, map_cons, sum_append, sum_cons]
    omega

theorem addToPayee_eq_some {scriptChange : CScript} {nChange : Int} {vout combined : List CTxOut}
    (ok : addToPayee scriptChange nChange vout = some combined) :
    ∃ before txout after, vout = before ++ txout :: after ∧ txout.scriptPubKey = scriptChange ∧
      combined = before ++ { txout with nValue := addInt64 txout.nValue nChange } :: after := by
  induction vout generalizing combined with
  | nil => cases ok
  | cons txout rest ih =>
    unfold addToPayee at ok
    split_ifs at ok with same
    · cases ok
      exact ⟨[], txout, rest, rfl, same.symm, rfl⟩
    · obtain ⟨later, found, rfl⟩ := Option.map_eq_some_iff.mp ok
      obtain ⟨before, other, after, rfl, script, rfl⟩ := ih found
      exact ⟨txout :: before, other, after, rfl, script, rfl⟩

section change

variable {round : ℕ} {nChange nFeeRet nFee : Int} {payees vout : List CTxOut}
  (fits : FitsInt64 (nFeeRet + nChange))
include fits

theorem withChange_changeOut {scriptChange : CScript} (positive : 0 < nChange)
    (address : wallet.IsChangeScript request scriptChange)
    (result : wallet.changeOut round scriptChange nChange nFeeRet payees = (vout, nFee)) :
    ∃ added, wallet.WithChange request payees added vout ∧ nFeeRet ≤ nFee ∧
      nFeeRet + nChange = nFee + added := by
  unfold changeOut at result
  rw [addInt64, wrapInt64_of_fits fits] at result
  dsimp only at result
  split_ifs at result with dust
  · cases result
    exact ⟨0, .without payees, by omega, (add_zero _).symm⟩
  · cases result
    refine ⟨nChange, ?_, le_rfl, rfl⟩
    have parts := WithChange.separate (payees.take (wallet.getRandInt round (payees.length + 1)))
      (payees.drop (wallet.getRandInt round (payees.length + 1))) nChange scriptChange address
      positive
    rw [List.take_append_drop] at parts
    exact parts

theorem withChange_addChange (nonneg : 0 ≤ nChange)
    (room : ∀ txout ∈ payees, FitsInt64 (txout.nValue + nChange))
    (ok : wallet.addChange request round nChange nFeeRet payees = .ok (vout, nFee)) :
    ∃ added, wallet.WithChange request payees added vout ∧ nFeeRet ≤ nFee ∧
      nFeeRet + nChange = nFee + added := by
  unfold addChange at ok
  rw [addInt64, wrapInt64_of_fits fits] at ok
  split_ifs at ok with denominated positive
  · cases ok
    exact ⟨0, .without payees, by omega, (add_zero _).symm⟩
  · cases destination : request.coinControl.bind CCoinControl.destChange with
    | some scriptChange =>
      have address : wallet.IsChangeScript request scriptChange := by
        unfold IsChangeScript
        rw [destination]
      rw [destination] at ok
      dsimp only at ok
      cases found : addToPayee scriptChange nChange payees with
      | some combined =>
        rw [found] at ok
        cases ok
        obtain ⟨before, txout, after, rfl, rfl, rfl⟩ := addToPayee_eq_some found
        have sum : addInt64 txout.nValue nChange = txout.nValue + nChange :=
          wrapInt64_of_fits (room txout (List.mem_append_right _ List.mem_cons_self))
        rw [sum]
        exact ⟨nChange, .combined before after nChange txout address positive, le_rfl, rfl⟩
      | none =>
        rw [found] at ok
        exact withChange_changeOut fits positive address (Except.ok.inj ok)
    | none =>
      rw [destination] at ok
      cases reserved : wallet.reservedScript round with
      | none =>
        rw [reserved] at ok
        cases ok
      | some scriptChange =>
        have address : wallet.IsChangeScript request scriptChange := by
          unfold IsChangeScript
          rw [destination]
          exact ⟨round, reserved⟩
        rw [reserved] at ok
        exact withChange_changeOut fits positive address (Except.ok.inj ok)
  · cases ok
    exact ⟨0, .without payees, le_rfl, by omega⟩

end change

theorem map_prevout_modify (vin : List CTxIn) (nIn : ℕ) (scriptSig : CScript) :
    (vin.modify nIn fun txin => { txin with scriptSig }).map prevout = vin.map prevout := by
  apply List.ext_getElem?
  intro i
  rw [List.getElem?_map, List.getElem?_modify, List.getElem?_map]
  cases vin[i]? with
  | none => rfl
  | some txin =>
    by_cases here : nIn = i
    · simp [here]
    · simp [here]

theorem prevouts_of_signInputs {coins : List WalletCoin} {vout : List CTxOut} {vin : List CTxIn}
    (ok : wallet.signInputs coins vout = .ok vin) :
    vin.map prevout = coins.map CWallet.outPointOf := by
  have kept := foldlM_invariant
    (fun vin : List CTxIn => vin.map prevout = coins.map CWallet.outPointOf)
    (fun input _ before after same signed => ?_) ok (by rw [List.map_map]; rfl)
  · exact kept
  · unfold signInput at signed
    split at signed
    · cases signed
    · cases signed
      rw [map_prevout_modify, same]

/-- A created transaction and the coins it spends. -/
structure Balanced (wallet : PayingWallet) (request : PaymentRequest) (created : Created)
    (coins : List WalletCoin) : Prop where
  /-- The coins are those of a selection that succeeded. -/
  selected : ∃ round nTotalValue, (wallet.selectionFor request round nTotalValue).found = true ∧
    ∀ coin, coin ∈ coins ↔ coin ∈ wallet.availableCoins request.filter ∧
      coin.output.coin.2 ∈ (wallet.selectionFor request round nTotalValue).setCoinsRet
  inputs : created.txNew.vin.map prevout = coins.map CWallet.outPointOf
  distinct : (created.txNew.vin.map prevout).Nodup
  total : (coins.map fun coin => coin.out.nValue).sum =
    (created.txNew.vout.map CTxOut.nValue).sum + created.nFeeRet
  nonneg : 0 ≤ created.nFeeRet
  /-- Without the change the outputs pay what is requested, to each script and to any kind of
  scripts together. -/
  payments : ∃ payees nChange, wallet.WithChange request payees nChange created.txNew.vout ∧
    ∀ kind, paidTo kind payees = requestedFor kind request.vecSend

/-- The largest fee that a round may start with. -/
def largestFee (wallet : PayingWallet) (request : PaymentRequest) : Int :=
  max 0 (max request.feePay wallet.maxTxFee)

/-- A fee that a round may start with. -/
structure FeeInRange (wallet : PayingWallet) (request : PaymentRequest) (nFeeRet : Int) : Prop where
  nonneg : 0 ≤ nFeeRet
  within : nFeeRet ≤ wallet.largestFee request

/-- The amounts are positive and the payments fit into 64 bits with the largest fee and a cent,
as do the available coins together. -/
structure InRange (wallet : PayingWallet) (request : PaymentRequest) : Prop where
  positive : ∀ payment ∈ request.vecSend, 0 < payment.2
  payments : (request.vecSend.map Prod.snd).sum + wallet.largestFee request + CENT < 2 ^ 63
  coins : ((wallet.availableCoins request.filter).map fun coin => coin.out.nValue).sum < 2 ^ 63

/-- Available coins of a payment are worth more than zero. -/
theorem InRange.coinsFit (inRange : wallet.InRange request) :
    SpendWallet.CoinsFit (wallet.availableCoins request.filter) := by
  refine ⟨List.forall_mem_map.mpr (List.forall_mem_map.mpr fun coin mem => ?_), ?_⟩
  · obtain ⟨-, -, available, -⟩ := CWallet.mem_availableCoins.mp mem
    exact ((CWallet.isAvailable_iff.mp available).2.2.2.2.1.resolve_right nofun).le
  · rw [List.map_map]
    exact inRange.coins

section rounds

variable {nValue nFeeRet next : Int} {round : ℕ} {created result : Created}

theorem getMinimumFee_le (round nTxBytes : ℕ) :
    wallet.getMinimumFee round nTxBytes ≤ wallet.maxTxFee := by
  unfold getMinimumFee
  dsimp only
  all_goals omega

theorem checkFee_again (ok : wallet.checkFee request round created = .ok (.inl next)) :
    created.nFeeRet < next ∧ next ≤ max request.feePay wallet.maxTxFee := by
  unfold checkFee at ok
  dsimp only at ok
  split_ifs at ok with large free policy enough
  · cases ok
  · cases ok
  · cases ok
    exact ⟨not_le.mp enough, max_le_max le_rfl (getMinimumFee_le _ _)⟩

theorem checkFee_done (ok : wallet.checkFee request round created = .ok (.inr result)) :
    result = created := by
  unfold checkFee at ok
  dsimp only at ok
  split_ifs at ok with large free policy enough
  · cases ok
    rfl
  · cases ok
    rfl
  · cases ok

variable (inRange : wallet.InRange request)
  (split : ∀ coinControl ∈ request.coinControl, coinControl.fSplitBlock = true →
    1 ≤ coinControl.nSplitBlock)
  (sum : nValue = (request.vecSend.map Prod.snd).sum)
include inRange split sum

/-- A round that starts with a fee in range ends with coins that balance, and no sum wraps. -/
theorem balanced_of_createRound {outcome : Int ⊕ Created}
    (fee : wallet.FeeInRange request nFeeRet)
    (ok : wallet.createRound request nValue round nFeeRet = .ok outcome) :
    ∃ created coins, wallet.Balanced request created coins ∧ nFeeRet ≤ created.nFeeRet ∧
      wallet.checkFee request round created = .ok outcome := by
  obtain ⟨nonneg, within⟩ := fee
  have room := inRange.payments
  have fits := inRange.coinsFit
  have cent : CENT = 1000000 := rfl
  have valueNonneg : 0 ≤ nValue := by
    rw [sum]
    exact List.sum_nonneg (List.forall_mem_map.mpr fun payment mem =>
      (inRange.positive payment mem).le)
  have target : addInt64 nValue nFeeRet = nValue + nFeeRet := addInt64_of_fits (by omega) (by omega)
  unfold createRound at ok
  rw [target] at ok
  obtain ⟨payees, paid, ok⟩ := bind_eq_ok.mp ok
  obtain ⟨found, ok⟩ := require_bind_eq_ok.mp ok
  obtain ⟨-, ok⟩ := require_bind_eq_ok.mp ok
  obtain ⟨⟨vout, nFee⟩, changed, ok⟩ := bind_eq_ok.mp ok
  obtain ⟨vin, signed, checked⟩ := bind_eq_ok.mp ok
  obtain ⟨chooses, enough⟩ := SpendWallet.chooses_selectCoinsToSpend fits ⟨by omega, by omega⟩ found
  change nValue + nFeeRet ≤
    (wallet.selectionFor request round (nValue + nFeeRet)).nValueRet at enough
  have distinct := wallet.distinct_availableCoins request.filter
  have arranged := wallet.order_perm (wallet.availableCoins request.filter)
  have worth := chooses.sum_eq distinct arranged
  change _ = (wallet.selectionFor request round (nValue + nFeeRet)).nValueRet at worth
  have below : (wallet.selectionFor request round (nValue + nFeeRet)).nValueRet < 2 ^ 63 := by
    rw [← worth]
    have part : (((wallet.order (wallet.availableCoins request.filter)).filter fun coin =>
        coin.output.coin.2 ∈ (wallet.selectionFor request round (nValue + nFeeRet)).setCoinsRet).map
          WalletCoin.output).Subperm
        ((wallet.availableCoins request.filter).map WalletCoin.output) :=
      ((List.filter_sublist.map _).subperm).trans (arranged.map _).subperm
    have total := (fits.part part).total
    rw [List.map_map] at total
    exact total
  have first : subInt64 (wallet.selectionFor request round (nValue + nFeeRet)).nValueRet nValue =
      (wallet.selectionFor request round (nValue + nFeeRet)).nValueRet - nValue :=
    wrapInt64_of_fits ⟨by omega, by omega⟩
  have nChange : subInt64 ((wallet.selectionFor request round (nValue + nFeeRet)).nValueRet -
      nValue) nFeeRet =
        (wallet.selectionFor request round (nValue + nFeeRet)).nValueRet - nValue - nFeeRet :=
    wrapInt64_of_fits ⟨by omega, by omega⟩
  rw [first, nChange] at changed
  have requested := paidTo_payeeOuts split paid
  have values : (payees.map CTxOut.nValue).sum = nValue := by
    rw [← paidTo_all payees, requested, requestedFor_all, ← sum]
  have payeeRoom : ∀ txout ∈ payees, FitsInt64 (txout.nValue +
      ((wallet.selectionFor request round (nValue + nFeeRet)).nValueRet - nValue - nFeeRet)) := by
    intro txout mem
    have payeesNonneg := payeeOuts_nonneg inRange.positive split paid
    have nonneg := payeesNonneg txout mem
    have small := List.single_le_sum (List.forall_mem_map.mpr payeesNonneg) _
      (List.mem_map_of_mem mem)
    exact ⟨by omega, by omega⟩
  obtain ⟨added, change, grows, rest⟩ :=
    withChange_addChange ⟨by omega, by omega⟩ (by omega) payeeRoom changed
  have prevouts := prevouts_of_signInputs signed
  refine ⟨⟨⟨vin, vout⟩, nFee⟩,
    wallet.setCoins request (wallet.selectionFor request round (nValue + nFeeRet)), ?_, grows,
    checked⟩
  exact {
    selected := ⟨round, nValue + nFeeRet, found, fun coin => by
      unfold setCoins
      rw [List.mem_filter, arranged.mem_iff, decide_eq_true_eq]⟩
    inputs := prevouts
    distinct := by
      rw [prevouts]
      refine List.Nodup.sublist (List.filter_sublist.map _) ((arranged.map _).nodup_iff.mpr ?_)
      exact CWallet.nodup_availableCoins
    total := by
      have outs := change.sum_eq
      refine worth.trans ?_
      change (wallet.selectionFor request round (nValue + nFeeRet)).nValueRet =
        (vout.map CTxOut.nValue).sum + nFee
      omega
    nonneg := by
      change 0 ≤ nFee
      omega
    payments := ⟨payees, added, change, requested⟩ }

/-- A round that is repeated starts over with a higher fee. -/
theorem createRound_again (fee : wallet.FeeInRange request nFeeRet)
    (ok : wallet.createRound request nValue round nFeeRet = .ok (.inl next)) :
    wallet.FeeInRange request next ∧
      (max request.feePay wallet.maxTxFee - next).toNat <
        (max request.feePay wallet.maxTxFee - nFeeRet).toNat := by
  obtain ⟨created, -, -, grows, checked⟩ := balanced_of_createRound inRange split sum fee ok
  obtain ⟨more, bounded⟩ := checkFee_again checked
  have nonneg := fee.nonneg
  have largest := le_max_right 0 (max request.feePay wallet.maxTxFee)
  exact ⟨⟨by omega, bounded.trans largest⟩, by omega⟩

end rounds

/-- **Created transactions balance.** However the coins are selected, and whatever the fee policy
is, as long as the amounts are in range, the loop returns once it has fuel for every fee up to the
largest. If `CreateTransaction` returns true, its inputs are distinct selected coins that are worth
the outputs and the fee, which is not negative, and without the change the outputs pay exactly what
is requested. -/
theorem createTransaction_balances (wallet : PayingWallet) (request : PaymentRequest)
    (inRange : wallet.InRange request)
    (split : ∀ coinControl ∈ request.coinControl, coinControl.fSplitBlock = true →
      1 ≤ coinControl.nSplitBlock) :
    ∃ outcome,
      (∀ fuel, (max request.feePay wallet.maxTxFee).toNat < fuel →
        wallet.createTransaction request fuel = some outcome) ∧
      ∀ created, outcome = .ok created → ∃ coins, wallet.Balanced request created coins := by
  unfold createTransaction
  cases payments : request.vecSend.foldlM addPayment 0 with
  | error reason => exact ⟨.error reason, fun _ _ => rfl, fun created same => by cases same⟩
  | ok nValue =>
    have sum : nValue = (request.vecSend.map Prod.snd).sum := by
      have room := inRange.payments
      have fee : 0 ≤ wallet.largestFee request := le_max_left 0 _
      have cent : CENT = 1000000 := rfl
      exact (sum_of_addPayment inRange.positive le_rfl (by omega) payments).trans (zero_add _)
    dsimp only
    split_ifs with refused
    · exact ⟨_, fun _ _ => rfl, fun created same => by cases same⟩
    · have start : wallet.FeeInRange request (if 0 < request.feePay then request.feePay else 0) := by
        have largest := le_max_right 0 (max request.feePay wallet.maxTxFee)
        split_ifs with positive
        · exact ⟨positive.le, (le_max_left _ _).trans largest⟩
        · exact ⟨le_rfl, le_max_left _ _⟩
      obtain ⟨outcome, returns⟩ := repeatUntil_returns
        (fun round nFeeRet next (fee : wallet.FeeInRange request nFeeRet) again =>
          createRound_again inRange split sum fee again) start 0
      refine ⟨outcome, fun fuel enough => returns fuel (by omega), ?_⟩
      rintro created rfl
      have returned := returns _ (Nat.lt_succ_self _)
      obtain ⟨round, nFeeRet, fee, last⟩ := repeatUntil_result
        (fun round nFeeRet next (fee : wallet.FeeInRange request nFeeRet) again =>
          (createRound_again inRange split sum fee again).1) start returned
      obtain ⟨built, coins, balanced, -, checked⟩ :=
        balanced_of_createRound inRange split sum fee last
      rw [checkFee_done checked]
      exact ⟨coins, balanced⟩

/-! ## A payment -/

/-- A wallet with one output of 100 DOGEC, and the lowest of fees. -/
def sample : PayingWallet where
  toCWallet := .sample (.of (100 * COIN) [0x51]) (by decide) .spendable
  selection _ _ := sampleSelection
  denominations _ _ := rfl
  getInputObfuscationRounds _ := 0
  nZeromintPercentage := 1
  bSpendZeroConfChange := true
  payTxFee := ⟨0⟩
  estimateFee _ := ⟨0⟩
  minTxFee := ⟨1⟩
  minRelayTxFee := ⟨1⟩
  maxTxFee := 2
  fSendFreeTransactions := false
  hasFreePriority _ := false
  getRandInt _ _ := 0
  reservedScript _ := some [0x53]
  order coins := coins
  order_perm coins := List.Perm.refl coins
  signSignature _ _ _ := some [0x00]

def sampleRequest : PaymentRequest where
  vecSend := [([0x52], 30 * COIN), ([0x52], 10 * COIN)]

/-- The payments of 40 DOGEC out of 100 leave change, and take two rounds. -/
theorem createTransaction_balances_sample :
    ∃ created coins, sample.createTransaction sampleRequest 3 = some (.ok created) ∧
      sample.Balanced sampleRequest created coins := by
  obtain ⟨outcome, returns, balances⟩ := createTransaction_balances sample sampleRequest
    ⟨by decide, by decide, by decide⟩ (fun _ absent => by cases absent)
  have computed : sample.createTransaction sampleRequest 3 = some (.ok
      ⟨⟨[⟨⟨7, 0⟩, [0x00], 0xffffffff⟩],
        [.of (60 * COIN - 1) [0x53], .of (30 * COIN) [0x52], .of (10 * COIN) [0x52]]⟩, 1⟩) := by
    decide +kernel
  have same := Option.some.inj ((returns 3 (by decide)).symm.trans computed)
  obtain ⟨coins, balanced⟩ := balances _ same
  exact ⟨_, coins, computed, balanced⟩

/-- A payment of nearly 2^63, out of the same 100 DOGEC. -/
def hugeRequest : PaymentRequest where
  vecSend := [([0x52], 2 ^ 63 - 500001)]

/-- With a cent the target wraps around, so the coin seems to be larger than the target. The
transaction is created, and pays what nobody has. -/
theorem createTransaction_wraps :
    ∃ created, sample.createTransaction hugeRequest 3 = some (.ok created) ∧
      ∀ coins, ¬sample.Balanced hugeRequest created coins := by
  have computed : sample.createTransaction hugeRequest 3 = some (.ok
      ⟨⟨[⟨⟨7, 0⟩, [0x00], 0xffffffff⟩], [.of (2 ^ 63 - 500001) [0x52]]⟩, 1⟩) := by
    decide +kernel
  refine ⟨_, computed, fun coins balanced => ?_⟩
  have single := congrArg List.length balanced.inputs
  rw [List.length_map, List.length_map] at single
  obtain ⟨coin, rfl⟩ := List.length_eq_one_iff.mp single.symm
  have total := balanced.total
  have small : coin.out.nValue ≤ 21000000 * COIN :=
    coin.output.inRange _ (List.get_mem coin.pcoin.tx.vout coin.i)
  rw [List.map_singleton, List.sum_singleton] at total
  rw [total] at small
  exact absurd small (by decide)

end PayingWallet

end DogeCash
