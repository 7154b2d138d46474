import DogeCash.Masternode.FillBlockPayee

/-! # The masternode payment moves value

`CMasternodePayments::FillBlockPayee` adds the masternode's output to a coinstake and takes its
value from the stake outputs: from the only one the whole of it, from several ones a share each,
and what the division leaves from the last one. One output is the case of several with a single
share, so that both branches of the source come to the same deduction.
-/

namespace DogeCash

open List (length_cons map_append map_cons map_nil range' sum_cons sum_nil)
open CTxOut (scriptPubKey)

def CTxOut.less (out : CTxOut) (nValue : Int) : CTxOut := { out with nValue := out.nValue - nValue }

@[simp] theorem CTxOut.less_nValue (out : CTxOut) (nValue : Int) :
    (out.less nValue).nValue = out.nValue - nValue := rfl

/-- The stake outputs, of which the last one is given apart, without the masternode payment. -/
def deducted (masternodePayment : Int) (others : List CTxOut) (last : CTxOut) : List CTxOut :=
  let split := masternodePayment.tdiv (others.length + 1)
  others.map (·.less split) ++ [last.less (masternodePayment - others.length * split)]

section

variable {masternodePayment : Int} {marker last : CTxOut} {others stake : List CTxOut}

theorem changeValue_shares (split : Int) (back : List CTxOut) :
    changeValue (· - (masternodePayment - split * (others.length + 1)))
        ((range' 1 (others.length + 1)).foldl (changeValue (· - split))
          (marker :: (others ++ [last]) ++ back)) (others.length + 1) =
      marker :: (others.map (·.less split) ++
        [last.less (masternodePayment - others.length * split)] ++ back) := by
  have shares : (range' 1 (others.length + 1)).foldl (changeValue (· - split))
      (marker :: (others ++ [last]) ++ back) =
        marker :: others.map (·.less split) ++ last.less split :: back := by
    have loop := foldl_changeValue (· - split) [marker] (others ++ [last]) back
    rw [List.length_append, List.length_singleton, List.length_singleton, map_append,
      List.append_assoc (others.map _)] at loop
    exact loop
  have remainder := changeValue_append (· - (masternodePayment - split * (others.length + 1)))
    (marker :: others.map (·.less split)) (last.less split) back
  rw [length_cons, List.length_map] at remainder
  have value : last.nValue - split - (masternodePayment - split * (others.length + 1)) =
      last.nValue - (masternodePayment - others.length * split) := by ring
  rw [shares, remainder, List.append_assoc, List.singleton_append, List.cons_append]
  simp only [CTxOut.less, value]

/-- **Both branches make the same deduction.** -/
theorem fillBlockPayee_eq (payee : CScript) (masternodePayment : Int)
    (notMint : ∀ out ∈ others ++ [last], out.isZerocoinMint = false) :
    fillBlockPayee (some payee) masternodePayment (marker :: (others ++ [last])) =
      .ok (marker :: (deducted masternodePayment others last ++
        [.of masternodePayment payee])) := by
  obtain ⟨second, rest, stakeIs⟩ := List.exists_cons_of_ne_nil (l := others ++ [last])
    (List.append_ne_nil_of_right_ne_nil others (List.cons_ne_nil _ _))
  have secondNotMint := notMint second (stakeIs ▸ List.mem_cons_self)
  have length : (marker :: (others ++ [last])).length = others.length + 2 := by
    rw [length_cons, List.length_append, List.length_singleton]
  have inside : (marker :: (others ++ [last]) ++ [CTxOut.of masternodePayment payee])[1]? =
      some second := by
    rw [stakeIs]
    rfl
  simp only [fillBlockPayee, inside, secondNotMint, length, Bool.false_eq_true, if_false]
  cases others with
  | nil =>
    refine (if_pos rfl).trans (congrArg Except.ok ?_)
    have single := changeValue_append (· - masternodePayment) [marker] last
      [.of masternodePayment payee]
    have whole : masternodePayment - (([] : List CTxOut).length : Int) *
        masternodePayment.tdiv (([] : List CTxOut).length + 1) = masternodePayment := by
      rw [List.length_nil, Nat.cast_zero, zero_mul, sub_zero]
    rw [deducted, whole]
    exact single
  | cons first others =>
    refine (if_neg ?_).trans ((if_pos ?_).trans (congrArg Except.ok ?_))
    · rw [length_cons]
      omega
    · rw [length_cons]
      omega
    generalize first :: others = front
    exact changeValue_shares _ _

theorem deducted_scripts (masternodePayment : Int) (others : List CTxOut) (last : CTxOut) :
    (deducted masternodePayment others last).map scriptPubKey =
      (others ++ [last]).map scriptPubKey := by
  rw [deducted, map_append, map_append, List.map_map]
  rfl

theorem sum_less (split : Int) (outs : List CTxOut) :
    ((outs.map (·.less split)).map CTxOut.nValue).sum =
      (outs.map CTxOut.nValue).sum - outs.length * split := by
  induction outs with
  | nil => rw [List.length_nil, Nat.cast_zero, zero_mul]; rfl
  | cons out rest ih =>
    simp only [map_cons, sum_cons, ih, length_cons, CTxOut.less_nValue, Nat.cast_succ]
    ring

theorem deducted_sum (masternodePayment : Int) (others : List CTxOut) (last : CTxOut) :
    ((deducted masternodePayment others last).map CTxOut.nValue).sum =
      ((others ++ [last]).map CTxOut.nValue).sum - masternodePayment := by
  simp only [deducted, map_append, List.sum_append, sum_less, map_cons, map_nil,
    sum_cons, sum_nil, CTxOut.less_nValue]
  ring

theorem deducted_nonneg (nonneg : 0 ≤ masternodePayment)
    (enough : ∀ out ∈ others ++ [last], masternodePayment ≤ out.nValue) :
    ∀ out ∈ deducted masternodePayment others last, 0 ≤ out.nValue := by
  have shares := StakeEnv.tdiv_shares nonneg others.length
  have atMost : masternodePayment.tdiv (others.length + 1) ≤ masternodePayment :=
    Int.tdiv_le_self _ nonneg
  have rest : 0 ≤ (others.length : Int) * masternodePayment.tdiv (others.length + 1) :=
    Int.mul_nonneg (Int.natCast_nonneg _) shares.1
  intro out mem
  rcases List.mem_append.mp mem with share | final
  · obtain ⟨stake, inside, rfl⟩ := List.mem_map.mp share
    have := enough stake (List.mem_append_left _ inside)
    rw [CTxOut.less_nValue]
    omega
  · rw [List.mem_singleton.mp final, CTxOut.less_nValue]
    have := enough last (List.mem_append_right _ List.mem_cons_self)
    omega

end

namespace Budgets

variable (budgets : Budgets) (node : Node) (currentMasternode : Option CScript)

/-- `CMasternodePayments::FillBlockPayee` for a coinstake after the active tip. -/
def fillMasternodePayee (vout : List CTxOut) : Except StakeStop (List CTxOut) :=
  match node.tip with
  | none => .ok vout
  | some tip =>
    let nBlockHeight := tip.nHeight + 1
    fillBlockPayee (budgets.getBlockPayee nBlockHeight <|> currentMasternode)
      (node.params.getMasternodePayment nBlockHeight (node.getBlockValue nBlockHeight)) vout

theorem fillPayee_eq_fillMasternodePayee {tip : ChainTip} (known : node.tip = some tip)
    (ordinary : (node.isSporkActive .enableSuperblocks &&
      budgets.isBudgetPaymentBlock (tip.nHeight + 1)) = false) (vout : List CTxOut) :
    budgets.fillPayee node currentMasternode vout =
      budgets.fillMasternodePayee node currentMasternode vout := by
  simp only [fillPayee, fillMasternodePayee, known, ordinary, Bool.false_eq_true, if_false]

variable {budgets node currentMasternode}

/-- **The masternode payment only moves value.** With a payee and stake outputs that are worth the
payment each, the coinstake gets one output of that value; the first output stays, each stake
output keeps its script and is not worth less than nothing, and the sum of all values is the one
before. -/
theorem fillMasternodePayee_moves_value {tip : ChainTip} {payee : CScript} {marker : CTxOut}
    {stake : List CTxOut} (known : node.tip = some tip)
    (detected : (budgets.getBlockPayee (tip.nHeight + 1) <|> currentMasternode) = some payee)
    (nonempty : stake ≠ [])
    (enough : ∀ out ∈ stake, node.params.getMasternodePayment (tip.nHeight + 1)
      (node.getBlockValue (tip.nHeight + 1)) ≤ out.nValue)
    (notMint : ∀ out ∈ stake, out.isZerocoinMint = false) :
    let masternodePayment := node.params.getMasternodePayment (tip.nHeight + 1)
      (node.getBlockValue (tip.nHeight + 1))
    ∃ paid : List CTxOut,
      budgets.fillMasternodePayee node currentMasternode (marker :: stake) =
        .ok (marker :: (paid ++ [.of masternodePayment payee])) ∧
      paid.map scriptPubKey = stake.map scriptPubKey ∧
      (∀ out ∈ paid, 0 ≤ out.nValue) ∧
      ((marker :: (paid ++ [.of masternodePayment payee])).map CTxOut.nValue).sum =
        ((marker :: stake).map CTxOut.nValue).sum := by
  intro masternodePayment
  obtain ⟨others, last, rfl⟩ : ∃ others last, stake = others ++ [last] :=
    ⟨stake.dropLast, stake.getLast nonempty, (List.dropLast_append_getLast nonempty).symm⟩
  have nonneg : 0 ≤ masternodePayment :=
    (node.params.getMasternodePayment_bounds _ (node.params.getBlockValue_nonneg _ _)).1
  refine ⟨deducted masternodePayment others last, ?_, deducted_scripts _ _ _,
    deducted_nonneg nonneg enough, ?_⟩
  · simp only [fillMasternodePayee, known, detected]
    exact fillBlockPayee_eq payee masternodePayment notMint
  · have moved := deducted_sum masternodePayment others last
    simp only [map_cons, map_append, sum_cons, List.sum_append, map_nil,
      sum_nil, CTxOut.of] at moved ⊢
    omega

def payingNode : Node :=
  { Node.sample .main with tip := some ⟨1000, 1000, 1600000000, 8000000 * COIN⟩ }

def withoutVotes : Budgets := ⟨[], 0, fun _ => none, fun _ => none⟩

theorem fillMasternodePayee_moves_value_three :
    let masternodePayment := payingNode.params.getMasternodePayment 1001
      (payingNode.getBlockValue 1001)
    let stake := List.replicate 3 (CTxOut.of (100 * COIN) [1])
    ∃ paid : List CTxOut,
      withoutVotes.fillMasternodePayee payingNode (some [2]) (.of 0 [] :: stake) =
        .ok (.of 0 [] :: (paid ++ [.of masternodePayment [2]])) ∧
      paid.map scriptPubKey = stake.map scriptPubKey ∧
      (∀ out ∈ paid, 0 ≤ out.nValue) ∧
      ((.of 0 [] :: (paid ++ [.of masternodePayment [2]])).map CTxOut.nValue).sum =
        ((.of 0 [] :: stake).map CTxOut.nValue).sum := by
  have known : payingNode.tip = some ⟨1000, 1000, 1600000000, 8000000 * COIN⟩ := rfl
  refine fillMasternodePayee_moves_value known rfl (List.cons_ne_nil _ _) (fun out mem => ?_)
    fun out mem => ?_
  · rw [List.eq_of_mem_replicate mem]
    decide
  · rw [List.eq_of_mem_replicate mem]
    decide

end Budgets

end DogeCash
