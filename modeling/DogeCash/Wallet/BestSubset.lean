import Mathlib.Algebra.Order.Ring.Int
import DogeCash.Wallet.CoinSelection

/-! # The stochastic search for a subset

Whatever the random bits are, the best subset that is known covers the target, and its total is
the one that is recorded, if the coins together are worth what fits into 64 bits.
-/

namespace DogeCash

variable {vValue : List (Int × WalletOutput)} {nTargetValue : Int}

def subsetTotal (vValue : List (Int × WalletOutput)) (flags : List Bool) : Int :=
  ((selected flags vValue).map Prod.fst).sum

/-- Nothing is worth less than zero, and all of it together fits into 64 bits. -/
structure TotalFits (values : List Int) : Prop where
  nonneg : ∀ value ∈ values, 0 ≤ value
  total : values.sum < 2 ^ 63

/-- Part of what fits has a total between zero and that of all, so it fits. -/
theorem TotalFits.subperm {part values : List Int} (fits : TotalFits values)
    (inside : part.Subperm values) : TotalFits part where
  nonneg value mem := fits.nonneg value (inside.subset mem)
  total := (sum_le_of_subperm inside fits.nonneg).trans_lt fits.total

/-- A total that fits is kept as it is. -/
theorem TotalFits.wrap {values : List Int} (fits : TotalFits values) :
    wrapInt64 values.sum = values.sum := by
  have := List.sum_nonneg fits.nonneg
  exact wrapInt64_of_fits ⟨by omega, fits.total⟩

theorem TotalFits.selected (fits : TotalFits (vValue.map Prod.fst)) (flags : List Bool) :
    TotalFits ((selected flags vValue).map Prod.fst) :=
  fits.subperm ((selected_sublist flags vValue).map Prod.fst).subperm

/-- A subset with its total that covers the target. -/
structure CoversTarget (vValue : List (Int × WalletOutput)) (nTargetValue : Int)
    (best : List Bool × Int) : Prop where
  total : best.2 = subsetTotal vValue best.1
  enough : nTargetValue ≤ best.2

/-- The subset that is tried has its total, and the best one covers the target. -/
structure SubsetSearch.Explores (vValue : List (Int × WalletOutput)) (nTargetValue : Int)
    (search : SubsetSearch) : Prop where
  length : search.vfIncluded.length = vValue.length
  total : search.nTotal = subsetTotal vValue search.vfIncluded
  best : CoversTarget vValue nTargetValue (search.vfBest, search.nBest)

namespace SubsetSearch.Explores

variable {search : SubsetSearch} {i : ℕ} {coin : Int × WalletOutput}

theorem includeCoin (fits : TotalFits (vValue.map Prod.fst))
    (explores : Explores vValue nTargetValue search)
    (here : vValue[i]? = some coin) (off : search.vfIncluded[i]? = some false) :
    Explores vValue nTargetValue (search.includeCoin nTargetValue i coin.1) ∧
      ∀ j, j ≠ i →
        (search.includeCoin nTargetValue i coin.1).vfIncluded[j]? = search.vfIncluded[j]? := by
  have grown : subsetTotal vValue (search.vfIncluded.set i true) = search.nTotal + coin.1 := by
    rw [explores.total]
    exact sum_selected_set Prod.fst off here
  have added : addInt64 search.nTotal coin.1 = search.nTotal + coin.1 := by
    rw [addInt64, ← grown]
    exact (fits.selected _).wrap
  have removed : subInt64 (search.nTotal + coin.1) coin.1 = search.nTotal := by
    rw [subInt64, Int.add_sub_cancel, explores.total]
    exact (fits.selected _).wrap
  have restored : (search.vfIncluded.set i true).set i false = search.vfIncluded := by
    obtain ⟨inside, value⟩ := List.getElem?_eq_some_iff.mp off
    rw [List.set_set, ← value, List.set_getElem_self]
  unfold SubsetSearch.includeCoin
  rw [added]
  dsimp only
  rw [removed]
  split_ifs with reached better
  · rw [restored]
    exact ⟨⟨explores.length, explores.total, grown.symm, reached⟩, fun _ _ => rfl⟩
  · rw [restored]
    exact ⟨⟨explores.length, explores.total, explores.best⟩, fun _ _ => rfl⟩
  · refine ⟨⟨List.length_set.trans explores.length, grown.symm, explores.best⟩,
      fun j ne => ?_⟩
    exact List.getElem?_set_ne ne.symm

theorem off_of_tries {nPass : ℕ} {randbool : ℕ → Bool}
    (explores : Explores vValue nTargetValue search) (inside : i < vValue.length)
    (first : nPass = 0 → search.vfIncluded[i]? = some false)
    (tries : search.tries nPass randbool i = true) : search.vfIncluded[i]? = some false := by
  unfold SubsetSearch.tries at tries
  split_ifs at tries with pass
  · exact first pass
  · have bound : i < search.vfIncluded.length := explores.length ▸ inside
    rw [List.getElem?_eq_getElem bound, Option.getD_some, Bool.not_eq_true'] at tries
    rw [List.getElem?_eq_getElem bound, tries]

theorem pass (fits : TotalFits (vValue.map Prod.fst)) (nPass : ℕ) (randbool : ℕ → Bool)
    (before rest : List (Int × WalletOutput))
    (explores : Explores vValue nTargetValue search) (split : vValue = before ++ rest)
    (first : nPass = 0 → ∀ j, before.length ≤ j → j < vValue.length →
      search.vfIncluded[j]? = some false) :
    Explores vValue nTargetValue
      (SubsetSearch.pass nTargetValue nPass randbool before.length rest search) := by
  induction rest generalizing before search with
  | nil => exact explores
  | cons coin rest ih =>
    have here : vValue[before.length]? = some coin := by
      rw [split, List.getElem?_append_right (Nat.le_refl _), Nat.sub_self]
      rfl
    have inside : before.length < vValue.length := (List.getElem?_eq_some_iff.mp here).1
    have next : vValue = (before ++ [coin]) ++ rest := by rw [split, List.append_cons]
    have length : (before ++ [coin]).length = before.length + 1 := List.length_append
    unfold SubsetSearch.pass
    rw [← length]
    by_cases tries : search.tries nPass randbool before.length = true
    · rw [if_pos tries]
      obtain ⟨kept, others⟩ := includeCoin fits explores here
        (explores.off_of_tries inside (fun pass => first pass _ (Nat.le_refl _) inside) tries)
      refine ih (before ++ [coin]) kept next fun pass j later bound => ?_
      rw [others j (by omega)]
      exact first pass j (by omega) bound
    · rw [if_neg tries]
      exact ih (before ++ [coin]) explores next fun pass j later bound =>
        first pass j (by omega) bound

end SubsetSearch.Explores

variable {best : List Bool × Int}

theorem CoversTarget.searchRound (fits : TotalFits (vValue.map Prod.fst))
    (covers : CoversTarget vValue nTargetValue best)
    (randbool : ℕ → Bool) :
    CoversTarget vValue nTargetValue (searchRound vValue nTargetValue randbool best) := by
  have start : SubsetSearch.Explores vValue nTargetValue
      ⟨List.replicate vValue.length false, 0, false, best.1, best.2⟩ := by
    refine ⟨List.length_replicate, ?_, covers⟩
    rw [subsetTotal, selected_replicate_false]
    rfl
  have first := start.pass fits 0 randbool [] vValue rfl fun _ j _ bound =>
    List.getElem?_replicate_of_lt bound
  unfold DogeCash.searchRound
  dsimp only
  split_ifs
  · exact first.best
  · exact (first.pass fits 1 randbool [] vValue rfl nofun).best

theorem CoversTarget.searchRounds (fits : TotalFits (vValue.map Prod.fst))
    (covers : CoversTarget vValue nTargetValue best)
    (randbool : ℕ → ℕ → Bool) (left nRep : ℕ) :
    CoversTarget vValue nTargetValue
      (searchRounds vValue nTargetValue randbool left nRep best) := by
  induction left generalizing nRep best with
  | zero => exact covers
  | succ left ih =>
    unfold DogeCash.searchRounds
    split_ifs
    · exact covers
    · exact ih (CoversTarget.searchRound fits covers (randbool nRep)) (nRep + 1)

/-- **`ApproximateBestSubset` covers the target** if all coins together do. -/
theorem approximateBestSubset_covers (fits : TotalFits (vValue.map Prod.fst)) {nTotalLower : Int}
    (total : nTotalLower = (vValue.map Prod.fst).sum) (enough : nTargetValue ≤ nTotalLower)
    (randbool : ℕ → ℕ → Bool) (iterations : ℕ) :
    CoversTarget vValue nTargetValue
      (approximateBestSubset vValue nTargetValue nTotalLower randbool iterations) := by
  refine CoversTarget.searchRounds fits ⟨?_, enough⟩ randbool iterations 0
  rw [subsetTotal, selected_replicate_true]
  exact total

end DogeCash
