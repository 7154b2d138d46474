import DogeCash.Wallet.CoinStake
import Mathlib.Tactic.Ring

/-! # When a coinstake returns what was staked

The outputs of a coinstake are to be worth the staked coin and the reward. They are when
the stake is divided among several outputs and no input before was given up after the
outputs had been built. A stake with a single output gets nothing, since the remainder is
put on the last output only inside the branch for several outputs; and when the last input
of the list is given up, the first input of an empty list is read.
-/

namespace DogeCash

open List (cons_append foldl_cons length_cons map_cons range' replicate sum_cons)
open StakeCoin (createTxOuts iszdogec outputCount)
open CTxOut (of of_nValue isEmpty)

section Values

variable (change : Int → Int)

theorem changeValue_append (front : List CTxOut) (out : CTxOut) (rest : List CTxOut) :
    changeValue change (front ++ out :: rest) front.length =
      front ++ { out with nValue := change out.nValue } :: rest := by
  induction front with
  | nil => rfl
  | cons first front ih =>
    simp only [changeValue, cons_append, length_cons, List.modify_succ_cons] at ih ⊢
    rw [ih]

theorem foldl_changeValue (front middle back : List CTxOut) :
    (range' front.length middle.length).foldl (changeValue change)
        (front ++ (middle ++ back)) =
      front ++ (middle.map (fun out => { out with nValue := change out.nValue }) ++ back) := by
  induction middle generalizing front with
  | nil => rfl
  | cons out rest ih =>
    have later := ih (front ++ [{ out with nValue := change out.nValue }])
    rw [length_cons, List.range'_succ, foldl_cons, cons_append, changeValue_append]
    simpa using later

theorem foldl_changeValue_remaining (nShare nRemaining : Int) (indices : List Nat)
    (vout : List CTxOut) :
    indices.foldl (fun (vout, nRemaining) i =>
        (changeValue (fun _ => nShare) vout i, nRemaining - nShare)) (vout, nRemaining) =
      (indices.foldl (changeValue fun _ => nShare) vout, nRemaining - indices.length * nShare) := by
  induction indices generalizing vout nRemaining with
  | nil => simp
  | cons i rest ih =>
    rw [foldl_cons, ih, foldl_cons, length_cons]
    congr 1
    push_cast
    ring

end Values

def stakeOuts (script : CScript) (others : Nat) (share last : Int) : List CTxOut :=
  replicate others (.of share script) ++ [.of last script]

theorem stakeOuts_sum (script : CScript) (others : Nat) (share last : Int) :
    ((stakeOuts script others share last).map CTxOut.nValue).sum = others * share + last := by
  simp [stakeOuts]

theorem forall_stakeOuts {script : CScript} {others : Nat} {share last : Int}
    (some : 0 < others) :
    (∀ out ∈ stakeOuts script others share last, 0 ≤ out.nValue) ↔ 0 ≤ share ∧ 0 ≤ last := by
  simp only [stakeOuts, List.mem_append, List.mem_replicate, List.mem_singleton]
  constructor
  · intro nonneg
    exact ⟨nonneg _ (.inl ⟨by omega, rfl⟩), nonneg _ (.inr rfl)⟩
  · rintro ⟨shareNonneg, lastNonneg⟩ out (⟨-, rfl⟩ | rfl)
    · exact shareNonneg
    · exact lastNonneg

theorem replicate_eq_stakeOuts (script : CScript) (others : Nat) :
    replicate (others + 1) (of 0 script) = stakeOuts script others 0 0 :=
  List.replicate_succ'

section Changes

variable (change : Int → Int) (marker : CTxOut) (script : CScript) (others : Nat)
  (share last : Int) (back : List CTxOut)

theorem foldl_changeValue_others :
    (range' 1 others).foldl (changeValue change)
        (marker :: (stakeOuts script others share last ++ back)) =
      marker :: (stakeOuts script others (change share) last ++ back) := by
  have changed := foldl_changeValue change [marker] (replicate others (.of share script))
    (.of last script :: back)
  rw [List.length_replicate, List.map_replicate] at changed
  simp only [stakeOuts, List.append_assoc, List.singleton_append]
  exact changed

theorem foldl_changeValue_all :
    (range' 1 (others + 1)).foldl (changeValue change)
        (marker :: (stakeOuts script others share last ++ back)) =
      marker :: (stakeOuts script others (change share) (change last) ++ back) := by
  have changed := foldl_changeValue change [marker] (stakeOuts script others share last) back
  have length : (stakeOuts script others share last).length = others + 1 := by simp [stakeOuts]
  have mapped : (stakeOuts script others share last).map
      (fun out => { out with nValue := change out.nValue }) =
        stakeOuts script others (change share) (change last) := by
    simp only [stakeOuts, List.map_append, List.map_replicate, List.map_singleton]
    rfl
  rw [length, mapped] at changed
  exact changed

theorem changeValue_last :
    changeValue change (marker :: (stakeOuts script others share last ++ back)) (others + 1) =
      marker :: (stakeOuts script others share (change last) ++ back) := by
  have changed := changeValue_append change (marker :: replicate others (.of share script))
    (.of last script) back
  rw [length_cons, List.length_replicate] at changed
  simp only [stakeOuts, List.append_assoc, List.singleton_append]
  exact changed

end Changes

theorem splitCredit_several (marker : CTxOut) (script : CScript) {others : Nat}
    (several : 0 < others) (nCredit : Int) :
    splitCredit nCredit (marker :: stakeOuts script others 0 0) =
      marker :: stakeOuts script others (nCredit.tdiv (others + 1))
        (nCredit - others * nCredit.tdiv (others + 1)) := by
  have length : (marker :: stakeOuts script others 0 0).length - 1 = others + 1 := by
    simp [stakeOuts]
  have shared := foldl_changeValue_others (fun _ => nCredit.tdiv (others + 1)) marker script others
    0 0 []
  have last := changeValue_last (· + (nCredit - others * nCredit.tdiv (others + 1))) marker script
    others (nCredit.tdiv (others + 1)) 0 []
  simp only [List.append_nil, Int.zero_add] at shared last
  simp only [splitCredit, length, Nat.add_sub_cancel, if_pos (show 1 < others + 1 by omega),
    foldl_changeValue_remaining, List.length_range', Nat.cast_add, Nat.cast_one]
  rw [shared, last]

theorem splitCredit_single (marker out : CTxOut) (nCredit : Int) :
    splitCredit nCredit [marker, out] = [marker, out] := by
  simp [splitCredit]

theorem fillBlockPayee_single {marker : CTxOut} {script payee : CScript} {nValue : Int}
    (notMint : CScript.isZerocoinMint script = false) (masternodePayment : Int) :
    fillBlockPayee (some payee) masternodePayment [marker, .of nValue script] =
      .ok [marker, .of (nValue - masternodePayment) script, .of masternodePayment payee] := by
  have secondNotMint : (of nValue script).isZerocoinMint = false := by
    simp [CTxOut.isZerocoinMint, of, notMint]
  simp only [fillBlockPayee, cons_append, List.nil_append, List.getElem?_cons_succ,
    List.getElem?_cons_zero, secondNotMint, Bool.false_eq_true, ↓reduceIte, length_cons,
    List.length_nil]
  rfl

/-- The masternode payment is taken out of several outputs. -/
theorem fillBlockPayee_several {marker : CTxOut} {script payee : CScript} {others : Nat}
    {share last : Int} (several : 0 < others) (notMint : CScript.isZerocoinMint script = false)
    (masternodePayment : Int) :
    fillBlockPayee (some payee) masternodePayment (marker :: stakeOuts script others share last) =
      .ok (marker ::
        (stakeOuts script others (share - masternodePayment.tdiv (others + 1))
          (last - masternodePayment.tdiv (others + 1) -
            (masternodePayment - masternodePayment.tdiv (others + 1) * (others + 1))) ++
          [.of masternodePayment payee])) := by
  have length : (marker :: stakeOuts script others share last).length = others + 2 := by
    simp [stakeOuts]
  obtain ⟨fewer, rfl⟩ := Nat.exists_eq_succ_of_ne_zero (by omega : others ≠ 0)
  have second : (marker :: stakeOuts script (fewer + 1) share last ++
      [.of masternodePayment payee])[1]? = some (.of share script) := by
    simp [stakeOuts, List.replicate_succ]
  have secondNotMint : (of share script).isZerocoinMint = false := by
    simp [CTxOut.isZerocoinMint, of, notMint]
  have shares := foldl_changeValue_all (· - masternodePayment.tdiv ((fewer + 1 : Nat) + 1)) marker
    script (fewer + 1) share last [.of masternodePayment payee]
  have remainder := changeValue_last
    (· - (masternodePayment -
      masternodePayment.tdiv ((fewer + 1 : Nat) + 1) * ((fewer + 1 : Nat) + 1)))
    marker script (fewer + 1) (share - masternodePayment.tdiv ((fewer + 1 : Nat) + 1))
    (last - masternodePayment.tdiv ((fewer + 1 : Nat) + 1)) [.of masternodePayment payee]
  simp only [fillBlockPayee, second, secondNotMint, length, Bool.false_eq_true, ↓reduceIte,
    if_neg (show ¬fewer + 1 + 2 = 2 by omega), if_pos (show 2 < fewer + 1 + 2 by omega),
    show fewer + 1 + 2 - 1 = fewer + 1 + 1 by omega]
  rw [cons_append, Nat.cast_add (fewer + 1) 1, Nat.cast_one, shares, remainder]

section First

variable (change : Int → Int)

theorem head?_changeValue (vout : List CTxOut) {i : Nat} (later : 0 < i) :
    (changeValue change vout i).head? = vout.head? := by
  obtain ⟨-, rfl⟩ := Nat.exists_eq_succ_of_ne_zero (by omega : i ≠ 0)
  cases vout <;> rfl

theorem head?_foldl_changeValue {indices : List Nat} (later : ∀ i ∈ indices, 0 < i)
    (vout : List CTxOut) : (indices.foldl (changeValue change) vout).head? = vout.head? := by
  induction indices generalizing vout with
  | nil => rfl
  | cons i rest ih =>
    rw [foldl_cons, ih (fun j mem => later j (List.mem_cons_of_mem _ mem)),
      head?_changeValue change vout (later i List.mem_cons_self)]

theorem pos_of_mem_range' {count i : Nat} (mem : i ∈ range' 1 count) : 0 < i := by
  have := List.mem_range'_1.mp mem
  omega

theorem head?_splitCredit (nCredit : Int) (vout : List CTxOut) :
    (splitCredit nCredit vout).head? = vout.head? := by
  simp only [splitCredit, foldl_changeValue_remaining]
  split
  · rw [head?_changeValue _ _ (by omega), head?_foldl_changeValue _ fun _ => pos_of_mem_range']
  · rfl

theorem fillBlockPayee_of_ne_nil (payee : Option CScript) (masternodePayment : Int)
    {vout : List CTxOut} (nonempty : vout ≠ []) :
    ∃ filled, fillBlockPayee payee masternodePayment vout = .ok filled ∧
      filled.head? = vout.head? := by
  obtain ⟨first, rest, rfl⟩ := List.exists_cons_of_ne_nil nonempty
  cases payee with
  | none => exact ⟨_, rfl, rfl⟩
  | some payee =>
    obtain ⟨second, inside⟩ : ∃ second,
        (first :: rest ++ [.of masternodePayment payee])[1]? = some second := by
      cases rest with
      | nil => exact ⟨_, rfl⟩
      | cons other rest => exact ⟨_, rfl⟩
    simp only [fillBlockPayee, inside]
    split_ifs
    · exact ⟨_, rfl, rfl⟩
    · exact ⟨_, rfl, by rw [head?_changeValue _ _ (by omega)]; rfl⟩
    · refine ⟨_, rfl, ?_⟩
      rw [head?_changeValue _ _ (by omega), head?_foldl_changeValue _ fun _ => pos_of_mem_range']
      rfl
    · exact ⟨_, rfl, rfl⟩

end First

namespace StakeEnv

/-- The coinstake has one input, an empty first output, and other outputs that are not
negative; all of them together are worth the given amount. -/
structure Returns (amount : Int) (txNew : CMutableTransaction) : Prop where
  oneInput : txNew.vin.length = 1
  marked : ∃ first ∈ txNew.vout.head?, first.isEmpty = true
  nonneg : ∀ out ∈ txNew.vout.tail, 0 ≤ out.nValue
  total : (txNew.vout.map CTxOut.nValue).sum = amount

variable (env : StakeEnv)

/-- Nothing was read out of range, and what was created for a DOGEC input returns the
input and the reward. -/
def Safe : Except StakeStop (CMutableTransaction × StakeInput) → Prop
  | .ok (txNew, input) =>
    input.coin.iszdogec = false → Returns (input.coin.getValue + env.nReward) txNew
  | .error stop => stop ≠ .outOfRange

/-- `CreateCoinStake` keeps the stake, whatever happens on the way. -/
def KeepsStake : Prop := env.Safe env.createCoinStake

/-- A credit divided among several outputs covers the masternode payment, which is divided
likewise. -/
def Covered (nCredit : Int) (outputs : Nat) : Prop :=
  2 ≤ outputs ∧
    (env.payee.isSome = true →
      env.masternodePayment - (outputs - 1) * env.masternodePayment.tdiv outputs ≤
        nCredit - (outputs - 1) * nCredit.tdiv outputs)

/-- The stakes that are kept, by the outcomes of the steps. `cleared` says that an input
was given up after the outputs had been built. -/
def Kept : Bool → List StakeInput → Prop
  | _, [] => True
  | cleared, input :: rest =>
    let nCredit := input.coin.getValue + env.nReward
    if input.interrupted then True
    else if !input.kernel then Kept cleared rest
    else
      match input.coin.createTxOuts env.nStakeSplitThreshold nCredit with
      | .error _ => True
      | .ok none => rest ≠ [] ∧ Kept cleared rest
      | .ok (some vout) =>
        if input.oversize then True
        else
          match input.txIn with
          | none => rest ≠ [] ∧ Kept true rest
          | some _ =>
            input.signed = true → input.coin.iszdogec = false →
              cleared = false ∧ env.Covered nCredit vout.length

theorem nReward_nonneg : 0 ≤ env.nReward := env.params.getBlockValue_nonneg _ _

theorem masternodePayment_bounds :
    0 ≤ env.masternodePayment ∧ env.masternodePayment ≤ env.nReward :=
  env.params.getMasternodePayment_bounds _ env.nReward_nonneg

variable {env}

theorem tdiv_shares {amount : Int} (nonneg : 0 ≤ amount) (others : Nat) :
    0 ≤ amount.tdiv (others + 1) ∧ 0 ≤ amount - others * amount.tdiv (others + 1) := by
  rw [Int.tdiv_eq_ediv_of_nonneg nonneg]
  have share : 0 ≤ amount / (others + 1 : Int) := Int.ediv_nonneg nonneg (by omega)
  have whole : (others + 1 : Int) * (amount / (others + 1)) ≤ amount :=
    Int.mul_ediv_self_le (by omega)
  have parts : (others + 1 : Int) * (amount / (others + 1)) =
      others * (amount / (others + 1)) + amount / (others + 1) := by ring
  omega

theorem tdiv_le_tdiv {smaller larger : Int} (nonneg : 0 ≤ smaller) (le : smaller ≤ larger)
    (others : Nat) : smaller.tdiv (others + 1) ≤ larger.tdiv (others + 1) := by
  rw [Int.tdiv_eq_ediv_of_nonneg nonneg, Int.tdiv_eq_ediv_of_nonneg (nonneg.trans le)]
  exact Int.ediv_le_ediv (by omega) le

variable {script : StakeScript} {txIn : CTxIn} {filled : List CTxOut} {nCredit : Int}

theorem returns_marked_iff (positive : 0 < nCredit) (atLeastReward : env.nReward ≤ nCredit)
    (ordinary : env.budgetFillBlockPayee = none) (others : Nat)
    (fill : env.fillPayee (splitCredit nCredit
      (marker :: stakeOuts script.script others 0 0)) = .ok filled) :
    Returns nCredit ⟨[txIn], filled⟩ ↔ env.Covered nCredit (others + 1) := by
  obtain ⟨paymentNonneg, paymentLe⟩ := env.masternodePayment_bounds
  simp only [fillPayee, ordinary] at fill
  by_cases several : 0 < others
  · obtain ⟨shareNonneg, lastNonneg⟩ := tdiv_shares positive.le others
    rw [splitCredit_several marker script.script several] at fill
    cases payeeIs : env.payee with
    | none =>
      rw [payeeIs] at fill
      cases fill
      have covered : env.Covered nCredit (others + 1) := ⟨by omega, by simp [payeeIs]⟩
      refine iff_of_true ⟨rfl, ⟨marker, rfl, rfl⟩, ?_, ?_⟩ covered
      · exact (forall_stakeOuts several).mpr ⟨shareNonneg, lastNonneg⟩
      · rw [map_cons, sum_cons, stakeOuts_sum]
        have nothing : marker.nValue = 0 := rfl
        omega
    | some payee =>
      rw [payeeIs, fillBlockPayee_several several script.notMint] at fill
      cases fill
      have shares := tdiv_le_tdiv paymentNonneg (paymentLe.trans atLeastReward) others
      have total : ∀ payment credit share split : Int,
          others * (share - split) + (credit - others * share - split -
            (payment - split * (others + 1))) + payment = credit := by
        intros
        ring
      have last : nCredit - others * nCredit.tdiv (others + 1) -
          env.masternodePayment.tdiv (others + 1) -
          (env.masternodePayment - env.masternodePayment.tdiv (others + 1) * (others + 1)) =
          nCredit - others * nCredit.tdiv (others + 1) -
            (env.masternodePayment - others * env.masternodePayment.tdiv (others + 1)) := by
        ring
      have outputs : ((others + 1 : Nat) : Int) = others + 1 := rfl
      constructor
      · intro returns
        refine ⟨by omega, fun _ => ?_⟩
        have nonneg := ((forall_stakeOuts several).mp fun out mem =>
          returns.nonneg out (List.mem_append_left _ mem)).2
        rw [outputs, Int.add_sub_cancel]
        omega
      · rintro ⟨-, covered⟩
        have enough := covered (by simp [payeeIs])
        rw [outputs, Int.add_sub_cancel] at enough
        refine ⟨rfl, ⟨marker, rfl, rfl⟩, ?_, ?_⟩
        · intro out mem
          rcases List.mem_append.mp mem with stake | payment
          · exact (forall_stakeOuts several).mpr ⟨by omega, by omega⟩ out stake
          · rw [List.mem_singleton.mp payment, of_nValue]
            exact paymentNonneg
        · rw [map_cons, sum_cons, List.map_append, List.sum_append, stakeOuts_sum]
          simp only [map_cons, List.map_nil, List.sum_singleton, of_nValue]
          rw [total]
          exact Int.zero_add _
  · obtain rfl : others = 0 := by omega
    have single : marker :: stakeOuts script.script 0 0 0 = [marker, .of 0 script.script] := rfl
    rw [single, splitCredit_single] at fill
    -- The credit is dropped: whoever is paid, the outputs are worth nothing together.
    have nothing : (filled.map CTxOut.nValue).sum = 0 := by
      cases payeeIs : env.payee with
      | none =>
        rw [payeeIs] at fill
        cases fill
        rfl
      | some payee =>
        rw [payeeIs, fillBlockPayee_single script.notMint] at fill
        cases fill
        simp [marker]
    refine iff_of_false ?_ ?_
    · intro returns
      have total := returns.total
      simp only [nothing] at total
      omega
    · rintro ⟨several, -⟩
      omega

theorem not_returns_cleared (ordinary : env.budgetFillBlockPayee = none) (others : Nat)
    (fill : env.fillPayee (splitCredit nCredit
      (stakeOuts script.script others 0 0)) = .ok filled) :
    ¬Returns nCredit ⟨[txIn], filled⟩ := by
  simp only [fillPayee, ordinary] at fill
  have first : (stakeOuts script.script others 0 0).head? = some (.of 0 script.script) := by
    cases others <;> rfl
  have nonempty : splitCredit nCredit (stakeOuts script.script others 0 0) ≠ [] := by
    intro empty
    have head := head?_splitCredit nCredit (stakeOuts script.script others 0 0)
    rw [empty, first] at head
    cases head
  obtain ⟨filled', fill', head⟩ := fillBlockPayee_of_ne_nil env.payee env.masternodePayment nonempty
  rw [fill] at fill'
  cases fill'
  rw [head?_splitCredit, first] at head
  intro returns
  obtain ⟨out, isFirst, empty⟩ := returns.marked
  rw [head] at isFirst
  cases isFirst
  have notEmpty : (of 0 script.script).isEmpty = false := by
    simp [isEmpty, of, script.nonempty]
  rw [notEmpty] at empty
  cases empty

variable {nStakeSplitThreshold : UInt64} {nTotal : Int} {vout : List CTxOut}

theorem outputCount_pos {count : Nat}
    (counted : outputCount nStakeSplitThreshold nTotal = some count) :
    ∃ others, count = others + 1 := by
  have positive : 0 < count := by
    unfold outputCount at counted
    simp only [StakeCoin.txSizeMax] at counted
    split_ifs at counted with unset divides several
    · cases counted
      omega
    · cases counted
      omega
    · cases counted
      omega
  exact ⟨count - 1, by omega⟩

def startOuts (cleared : Bool) : List CTxOut := if cleared then [] else [marker]

/-- An input whose outputs were made and whose transaction input was created ends the
loop; the stake is kept exactly under the condition of `Kept`. -/
theorem safe_chosen_iff (ordinary : env.budgetFillBlockPayee = none) {input : StakeInput}
    {cleared : Bool} (made : input.coin.createTxOuts env.nStakeSplitThreshold
      (input.coin.getValue + env.nReward) = .ok (some vout))
    (fill : env.fillPayee (splitCredit (input.coin.getValue + env.nReward)
      (startOuts cleared ++ vout)) = .ok filled) :
    env.Safe (finish ⟨⟨[txIn], filled⟩, true, some input⟩) ↔
      (input.signed = true → input.coin.iszdogec = false →
        cleared = false ∧ env.Covered (input.coin.getValue + env.nReward) vout.length) := by
  by_cases signed : input.signed = true
  · simp only [finish, signed, Bool.not_true, Bool.false_eq_true, ↓reduceIte, Safe, true_imp_iff]
    refine imp_congr_right fun isDogec => ?_
    cases coinIs : input.coin with
    | zdogec value mints => simp [coinIs, iszdogec] at isDogec
    | dogec value positive script =>
      rw [coinIs] at made fill
      cases script with
      | none => simp [createTxOuts] at made
      | some script =>
        simp only [createTxOuts] at made
        cases counted : outputCount env.nStakeSplitThreshold
            ((StakeCoin.dogec value positive (some script)).getValue + env.nReward) with
        | none => simp [counted] at made
        | some count =>
          obtain ⟨others, rfl⟩ := outputCount_pos counted
          simp only [counted, Except.ok.injEq, Option.some.injEq] at made
          subst made
          rw [replicate_eq_stakeOuts] at fill ⊢
          have length : (stakeOuts script.script others 0 0).length = others + 1 := by
            simp [stakeOuts]
          have reward := env.nReward_nonneg
          have value' : (StakeCoin.dogec value positive (some script)).getValue = value := rfl
          cases cleared with
          | true =>
            have lost : ¬Returns (value + env.nReward) ⟨[txIn], filled⟩ :=
              not_returns_cleared ordinary others fill
            simp [lost, value']
          | false =>
            rw [length, returns_marked_iff (by omega) (by omega) ordinary others fill]
            simp
  · simp [finish, signed, Safe]

theorem createTxOuts_ne_nil {coin : StakeCoin}
    (made : coin.createTxOuts nStakeSplitThreshold nTotal = .ok (some vout)) : vout ≠ [] := by
  unfold createTxOuts at made
  split at made
  · cases made
  · split at made
    · cases made
    · rename_i counted
      obtain ⟨others, rfl⟩ := outputCount_pos counted
      cases made
      simp
  · cases made
  · rename_i mints
    cases made
    exact mints.2

theorem createTxOuts_error {coin : StakeCoin} {stop : StakeStop}
    (failed : coin.createTxOuts nStakeSplitThreshold nTotal = .error stop) :
    stop = .divisionByZero := by
  unfold createTxOuts at failed
  split at failed
  · cases failed
  · split at failed
    · cases failed
      rfl
    · cases failed
  · cases failed
  · cases failed

section

variable (ordinary : env.budgetFillBlockPayee = none)
include ordinary

theorem fillPayee_of_ne_nil (nCredit : Int) (nonempty : vout ≠ []) :
    ∃ filled, env.fillPayee (splitCredit nCredit vout) = .ok filled := by
  have split : splitCredit nCredit vout ≠ [] := by
    obtain ⟨first, rest, rfl⟩ := List.exists_cons_of_ne_nil nonempty
    intro empty
    have head := head?_splitCredit nCredit (first :: rest)
    rw [empty] at head
    cases head
  obtain ⟨filled, fill, -⟩ := fillBlockPayee_of_ne_nil env.payee env.masternodePayment split
  exact ⟨filled, by simp only [fillPayee, ordinary, fill]⟩

/-- The transaction of an input that is divided: the marker, the outputs of the stake, each less
its part of the masternode payment, and that payment. -/
theorem tryInputs_divided {payee : CScript} (paid : env.payee = some payee) {input : StakeInput}
    {value : Int} {positive : 0 < value} {script : StakeScript}
    (coin : input.coin = .dogec value positive (some script))
    (continues : input.interrupted = false ∧ input.kernel = true ∧ input.oversize = false)
    {txIn : CTxIn} (created : input.txIn = some txIn) {others : Nat} (several : 0 < others)
    (counted : outputCount env.nStakeSplitThreshold (value + env.nReward) =
      some (others + 1)) (rest : List StakeInput) (fKernelFound : Bool) :
    env.tryInputs (input :: rest) ⟨[], [marker]⟩ fKernelFound =
      .ok ⟨⟨[txIn], marker :: (stakeOuts script.script others
          ((value + env.nReward).tdiv (others + 1) - env.masternodePayment.tdiv (others + 1))
          (value + env.nReward - others * (value + env.nReward).tdiv (others + 1) -
            env.masternodePayment.tdiv (others + 1) -
            (env.masternodePayment - env.masternodePayment.tdiv (others + 1) * (others + 1))) ++
        [.of env.masternodePayment payee])⟩, true, some input⟩ := by
  obtain ⟨interrupted, kernel, oversize⟩ := continues
  have credit : input.coin.getValue = value := by rw [coin, StakeCoin.getValue]
  have made : input.coin.createTxOuts env.nStakeSplitThreshold (value + env.nReward) =
      .ok (some (stakeOuts script.script others 0 0)) := by
    rw [coin, ← replicate_eq_stakeOuts]
    simp only [createTxOuts, counted]
  simp only [tryInputs, interrupted, kernel, oversize, credit, made, created, fillPayee, ordinary,
    paid, Bool.false_eq_true, ↓reduceIte, Bool.not_true, List.nil_append, List.singleton_append]
  rw [splitCredit_several marker script.script several,
    fillBlockPayee_several several script.notMint]

/-- **The loop over the inputs**, from a transaction that is empty or holds the marker. -/
theorem safe_tryInputs_iff (inputs : List StakeInput) (cleared fKernelFound : Bool) :
    env.Safe (env.tryInputs inputs ⟨[], startOuts cleared⟩ fKernelFound >>= finish) ↔
      (fKernelFound = true → inputs ≠ []) ∧ env.Kept cleared inputs := by
  induction inputs generalizing cleared fKernelFound with
  | nil =>
    cases fKernelFound with
    | false => exact iff_of_true (fun stop => nomatch stop) ⟨(nomatch ·), trivial⟩
    | true => exact iff_of_false (fun safe => safe rfl) fun kept => kept.1 rfl rfl
  | cons input rest ih =>
    have nonempty : fKernelFound = true → input :: rest ≠ [] := fun _ => List.cons_ne_nil _ _
    rw [and_iff_right nonempty]
    simp only [tryInputs, Kept]
    by_cases interrupted : input.interrupted = true
    · rw [if_pos interrupted, if_pos interrupted]
      exact iff_of_true (fun stop => nomatch stop) trivial
    rw [if_neg interrupted, if_neg interrupted]
    by_cases kernel : input.kernel = true
    · rw [kernel, Bool.not_true, if_neg (by simp), if_neg (by simp)]
      cases made : input.coin.createTxOuts env.nStakeSplitThreshold
          (input.coin.getValue + env.nReward) with
      | error stop =>
        obtain rfl := createTxOuts_error made
        exact iff_of_true (fun stop => nomatch stop) trivial
      | ok outs =>
        cases outs with
        | none =>
          have later := ih cleared true
          simp only [true_imp_iff] at later
          exact later
        | some vout =>
          dsimp only
          by_cases oversize : input.oversize = true
          · rw [if_pos oversize, if_pos oversize]
            exact iff_of_true (fun stop => nomatch stop) trivial
          rw [if_neg oversize, if_neg oversize]
          have nonempty : startOuts cleared ++ vout ≠ [] :=
            List.append_ne_nil_of_right_ne_nil _ (createTxOuts_ne_nil made)
          obtain ⟨filled, fill⟩ :=
            fillPayee_of_ne_nil ordinary (input.coin.getValue + env.nReward) nonempty
          rw [fill]
          cases txInIs : input.txIn with
          | none =>
            have later := ih true true
            simp only [true_imp_iff] at later
            exact later
          | some txIn => exact safe_chosen_iff ordinary made fill
    · rw [if_pos (by simp [kernel]), if_pos (by simp [kernel])]
      have later := ih cleared false
      simp only [Bool.false_eq_true, false_imp_iff, true_and] at later
      exact later

end

/-- **When staking keeps the staked coins.** Outside budget payment blocks it does exactly
if the list of inputs does not end with one that is given up, and the input that is chosen,
if it is a DOGEC input, comes before any that was given up with its outputs built, and is
divided among several outputs whose shares cover the masternode payment. -/
theorem keepsStake_iff (env : StakeEnv) (ordinary : env.budgetFillBlockPayee = none) :
    env.KeepsStake ↔ ∀ inputs, env.stakeInputs = some inputs → env.Kept false inputs := by
  unfold KeepsStake createCoinStake
  cases selected : env.stakeInputs with
  | none =>
    refine iff_of_true (nomatch ·) ?_
    intro inputs absent
    cases absent
  | some inputs =>
    have loop := safe_tryInputs_iff ordinary inputs false false
    simp only [Bool.false_eq_true, false_imp_iff, true_and] at loop
    constructor
    · intro safe others same
      cases same
      exact loop.mp safe
    · intro kept
      exact loop.mpr (kept inputs rfl)

/-- An input of 100 DOGEC whose kernel is found and whose steps all succeed. -/
def sampleInput : StakeInput where
  coin := .dogec (100 * COIN) (by decide) (some ⟨[0x21, 0x02, 0xac], by decide, by decide⟩)
  interrupted := false
  kernel := true
  oversize := false
  txIn := some ⟨⟨7, 1⟩, [], 0xffffffff⟩
  signed := true

/-- A wallet at height 1000 of the main network, with a masternode to pay. -/
def sampleEnv (nStakeSplitThreshold : UInt64) (listInputs : List StakeInput) : StakeEnv where
  params := .main
  tip := ⟨1000, 1000, 1600000000, 8000000 * COIN⟩
  nStakeSplitThreshold := nStakeSplitThreshold
  payee := some [0x52]
  budgetFillBlockPayee := none
  nBalance := 200 * COIN
  nReserveBalance := 0
  reserveBalanceArg := none
  listInputs := some listInputs

/-- With a threshold of 50 DOGEC the stake is divided in two and kept. -/
theorem keepsStake_sample : (sampleEnv 50 [sampleInput]).KeepsStake := by
  refine (keepsStake_iff (sampleEnv 50 [sampleInput]) rfl).mpr ?_
  intro inputs selected
  cases selected
  intro _ _
  refine ⟨rfl, ?_, fun _ => ?_⟩
  · decide
  · decide

/-- An input whose `CreateTxOuts` fails. -/
def brokenInput : StakeInput := { sampleInput with coin := .dogec (100 * COIN) (by decide) none }

/-- An input whose `CreateTxIn` fails. -/
def unspendableInput : StakeInput := { sampleInput with txIn := none }

/-- A stake with a single output loses everything and has a negative output; an input that
is given up at the end of the list leads to a read out of range; and one that is given up
before another takes the marker away. -/
theorem not_keepsStake_samples :
    (∃ txNew input, (sampleEnv 0 [sampleInput]).createCoinStake = .ok (txNew, input) ∧
      input.coin.iszdogec = false ∧ input.coin.getValue = 10000000000 ∧
      txNew.vout.map CTxOut.nValue = [0, -864000000, 864000000]) ∧
    (sampleEnv 50 [brokenInput]).createCoinStake = .error .outOfRange ∧
    (∃ txNew input, (sampleEnv 50 [unspendableInput, sampleInput]).createCoinStake =
      .ok (txNew, input) ∧ input.coin.iszdogec = false ∧
      txNew.vout.map isEmpty = [false, false, false]) ∧
    ¬(sampleEnv 0 [sampleInput]).KeepsStake ∧ ¬(sampleEnv 50 [brokenInput]).KeepsStake ∧
    ¬(sampleEnv 50 [unspendableInput, sampleInput]).KeepsStake := by
  have single : ∃ txNew input, (sampleEnv 0 [sampleInput]).createCoinStake = .ok (txNew, input) ∧
      input.coin.iszdogec = false ∧ input.coin.getValue = 10000000000 ∧
      txNew.vout.map CTxOut.nValue = [0, -864000000, 864000000] :=
    ⟨_, _, rfl, rfl, by decide, by decide⟩
  have unmarked : ∃ txNew input, (sampleEnv 50 [unspendableInput, sampleInput]).createCoinStake =
      .ok (txNew, input) ∧ input.coin.iszdogec = false ∧
      txNew.vout.map isEmpty = [false, false, false] :=
    ⟨_, _, rfl, rfl, by decide⟩
  refine ⟨single, rfl, unmarked, ?_, ?_, ?_⟩
  · obtain ⟨txNew, input, created, isDogec, value, values⟩ := single
    intro safe
    rw [KeepsStake, created] at safe
    have total := (safe isDogec).total
    have reward := (sampleEnv 0 [sampleInput]).nReward_nonneg
    rw [values, value] at total
    simp at total
    omega
  · intro safe
    exact safe rfl
  · obtain ⟨txNew, input, created, isDogec, empties⟩ := unmarked
    intro safe
    rw [KeepsStake, created] at safe
    obtain ⟨first, isFirst, empty⟩ := (safe isDogec).marked
    have inside : first.isEmpty ∈ txNew.vout.map isEmpty :=
      List.mem_map_of_mem (List.mem_of_mem_head? isFirst)
    rw [empties, empty] at inside
    simp at inside

end StakeEnv

end DogeCash
