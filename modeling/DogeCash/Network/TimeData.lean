import DogeCash.Foundation.Median
import DogeCash.Network.AddrMan

/-! # Adjusted time

`AddTimeData` takes one offset sample from each address, up to 200 of them, and moves the clock to
the median where that is less than 70 minutes away. The distance is computed as an absolute value
of 64 bits, and the least number of 64 bits is its own negation. So the clock stays within the 70
minutes exactly as long as the least number is not most of the samples when the clock is set.
-/

namespace DogeCash

instance linearOrderInt64 : LinearOrder Int64 where
  le_refl := Int64.le_refl
  le_trans _ _ _ := Int64.le_trans
  le_antisymm _ _ := Int64.le_antisymm
  lt_iff_le_not_ge _ _ := Std.LawfulOrderLT.lt_iff _ _
  le_total := Int64.le_total
  toDecidableLE := inferInstance
  toDecidableEq := inferInstance
  toDecidableLT := inferInstance

structure CMedianFilter (T : Type*) [LinearOrder T] where
  vValues : List T
  vSorted : List T
  nSize : ℕ
  sorted : vSorted = vValues.insertionSort (· ≤ ·)

namespace CMedianFilter

section

variable {T : Type*} [LinearOrder T]

/-- The constructor of `CMedianFilter`. -/
def new (size : ℕ) (initialValue : T) : CMedianFilter T :=
  ⟨[initialValue], [initialValue], size, rfl⟩

def window (filter : CMedianFilter T) (value : T) : List T :=
  (if filter.vValues.length = filter.nSize then filter.vValues.drop 1 else filter.vValues) ++ [value]

def input (filter : CMedianFilter T) (value : T) : CMedianFilter T :=
  ⟨filter.window value, (filter.window value).insertionSort (· ≤ ·), filter.nSize, rfl⟩

def size (filter : CMedianFilter T) : ℕ := filter.vValues.length

/-- `CMedianFilter::median`; `none` where the assertion fails. -/
def median [Add T] [Div T] [OfNat T 2] (filter : CMedianFilter T) : Option T :=
  let size := filter.vSorted.length
  if 0 < size then
    if size % 2 = 1 then filter.vSorted[size / 2]?
    else do
      let first ← filter.vSorted[size / 2 - 1]?
      let second ← filter.vSorted[size / 2]?
      return (first + second) / 2
  else none

theorem exists_median [Add T] [Div T] [OfNat T 2] (filter : CMedianFilter T)
    (odd : filter.size % 2 = 1) :
    ∃ m, filter.median = some m ∧ IsMedian m filter.vValues := by
  have same := List.perm_insertionSort (· ≤ ·) filter.vValues
  have length := same.length_eq
  rw [size] at odd
  rw [← filter.sorted] at same length
  have inside : filter.vSorted.length / 2 < filter.vSorted.length := by omega
  have middle := List.getElem?_eq_getElem inside
  refine ⟨_, ?_, (isMedian_middle ?_ (length ▸ odd) middle).perm same⟩
  · rw [median, if_pos (by omega), if_pos (length ▸ odd)]
    exact middle
  · rw [filter.sorted]
    exact List.pairwise_insertionSort _ _

end

end CMedianFilter

/-- `abs64`. The negation of the least number wraps around to itself. -/
def abs64 (n : Int64) : Int64 := if n ≥ 0 then n else -n

/-- `BITCOIN_TIMEDATA_MAX_SAMPLES` -/
def timedataMaxSamples : ℕ := 200

/-- The static variables of `AddTimeData`, `nTimeOffset` and `strMiscWarning`. -/
structure TimeData where
  setKnown : Finset CNetAddr
  vTimeOffsets : CMedianFilter Int64
  nTimeOffset : Int64
  fDone : Bool
  strMiscWarning : String

namespace TimeData

def init : TimeData := ⟨∅, .new timedataMaxSamples 0, 0, false, ""⟩

/-- The warning if nobody has a time different than ours but within five minutes of ours. -/
def warn (state : TimeData) : TimeData :=
  if state.fDone then state
  else
    let fMatch := state.vTimeOffsets.vSorted.any fun nOffset =>
      nOffset ≠ 0 && abs64 nOffset < 5 * 60
    if fMatch then state
    else { state with
      fDone := true
      strMiscWarning :=
        "Warning: Please check that your computer's date and time are correct! " ++
          "If your clock is wrong DogeCash Core will not work properly." }

/-- Set `nTimeOffset` by the median: only let other nodes change our time by so much. -/
def setOffset (state : TimeData) (nMedian : Int64) : TimeData :=
  if abs64 nMedian < 70 * 60 then { state with nTimeOffset := nMedian }
  else warn { state with nTimeOffset := 0 }

end TimeData

/-- `AddTimeData` of an address and a sample; `none` where an assertion fails. -/
def addTimeData (call : CNetAddr × Int64) (state : TimeData) : Option TimeData :=
  if state.setKnown.card = timedataMaxSamples then some state
  else if call.1 ∈ state.setKnown then some state
  else
    let state := { state with
      setKnown := insert call.1 state.setKnown
      vTimeOffsets := state.vTimeOffsets.input call.2 }
    if state.vTimeOffsets.size ≥ 5 ∧ state.vTimeOffsets.size % 2 = 1 then
      state.vTimeOffsets.median.map state.setOffset
    else some state

/-! ## The bound -/

theorem abs64_lt_iff (n : Int64) : abs64 n < 70 * 60 ↔ n = Int64.minValue ∨ |n.toInt| < 70 * 60 := by
  have limit : (70 * 60 : Int64).toInt = 70 * 60 := rfl
  rw [Int64.lt_iff_toInt_lt, limit, abs64]
  by_cases nonneg : n ≥ 0
  · have positive : 0 ≤ n.toInt := Int64.le_iff_toInt_le.mp nonneg
    rw [if_pos nonneg, abs_of_nonneg positive]
    refine (or_iff_right ?_).symm
    rintro rfl
    exact absurd positive (by decide)
  · have negative : n.toInt < 0 :=
      not_le.mp fun positive => nonneg (Int64.le_iff_toInt_le.mpr positive)
    rw [if_neg nonneg, abs_of_neg negative]
    by_cases least : n = Int64.minValue
    · rw [least]
      exact iff_of_true (by decide) (Or.inl rfl)
    · have above : Int64.minValue.toInt < n.toInt :=
        (Int64.minValue_le_toInt n).lt_of_ne fun same => least (Int64.toInt_inj.mp same.symm)
      have bound : Int64.minValue.toInt = -2 ^ 63 := rfl
      have wrapped : (-n).toInt = -n.toInt := by
        rw [Int64.toInt_neg]
        exact Int.bmod_eq_of_le (by omega) (by omega)
      rw [wrapped, or_iff_right least]

theorem TimeData.warn_nTimeOffset (state : TimeData) :
    state.warn.nTimeOffset = state.nTimeOffset := by
  rw [warn]
  dsimp only
  split_ifs
  · rfl
  · rfl
  · rfl

/-- What a call should do: the clock stays less than 70 minutes away, and where it is moved to
another time than ours, it is moved to the median of the samples held. -/
structure OffsetMoved (before after : TimeData) : Prop where
  bounded : |after.nTimeOffset.toInt| < 70 * 60
  median : after.nTimeOffset ≠ before.nTimeOffset → after.nTimeOffset ≠ 0 →
    IsMedian after.nTimeOffset after.vTimeOffsets.vValues

/-- Where a call sets the clock, the least number is not most of the samples then held. -/
def LeastNotMost (state : TimeData) (call : CNetAddr × Int64) : Prop :=
  state.setKnown.card ≠ timedataMaxSamples → call.1 ∉ state.setKnown →
    5 ≤ (state.vTimeOffsets.window call.2).length →
      (state.vTimeOffsets.window call.2).length % 2 = 1 →
        2 * (state.vTimeOffsets.window call.2).count Int64.minValue ≤
          (state.vTimeOffsets.window call.2).length

instance (state : TimeData) (call : CNetAddr × Int64) : Decidable (LeastNotMost state call) :=
  inferInstanceAs (Decidable (_ → _ → _ → _ → _))

theorem TimeData.setOffset_moved {before state : TimeData} {nMedian : Int64}
    (median : IsMedian nMedian state.vTimeOffsets.vValues) :
    OffsetMoved before (state.setOffset nMedian) ↔ nMedian ≠ Int64.minValue := by
  rw [setOffset]
  by_cases near : abs64 nMedian < 70 * 60
  · rw [if_pos near]
    constructor
    · intro moved least
      have bounded : |nMedian.toInt| < 70 * 60 := moved.bounded
      rw [least] at bounded
      exact absurd bounded (by decide)
    · intro proper
      exact ⟨((abs64_lt_iff nMedian).mp near).resolve_left proper, fun _ _ => median⟩
  · have proper : nMedian ≠ Int64.minValue :=
      fun least => near ((abs64_lt_iff nMedian).mpr (Or.inl least))
    rw [if_neg near]
    have start : |(0 : Int64).toInt| < 70 * 60 := by decide
    refine iff_of_true ⟨?_, fun _ moved => ?_⟩ proper
    · rw [warn_nTimeOffset]
      exact start
    · rw [warn_nTimeOffset] at moved
      exact absurd rfl moved

theorem addTimeData_performed (call : CNetAddr × Int64) (before : TimeData)
    (start : |before.nTimeOffset.toInt| < 70 * 60) :
    ∃ after, addTimeData call before = some after ∧
      (OffsetMoved before after ↔ LeastNotMost before call) := by
  rw [addTimeData]
  by_cases full : before.setKnown.card = timedataMaxSamples
  · rw [if_pos full]
    exact ⟨before, rfl, iff_of_true ⟨start, fun moved => absurd rfl moved⟩
      fun notFull => absurd full notFull⟩
  by_cases known : call.1 ∈ before.setKnown
  · rw [if_neg full, if_pos known]
    exact ⟨before, rfl, iff_of_true ⟨start, fun moved => absurd rfl moved⟩
      fun _ fresh => absurd known fresh⟩
  rw [if_neg full, if_neg known]
  by_cases sets : 5 ≤ (before.vTimeOffsets.window call.2).length ∧
      (before.vTimeOffsets.window call.2).length % 2 = 1
  · obtain ⟨enough, odd⟩ := sets
    obtain ⟨nMedian, found, median⟩ := (before.vTimeOffsets.input call.2).exists_median odd
    refine ⟨_, (if_pos ⟨enough, odd⟩).trans (congrArg (Option.map _) found), ?_⟩
    have most := isMedian_least Int64.minValue_le odd
    have least : nMedian = Int64.minValue ↔
        IsMedian Int64.minValue (before.vTimeOffsets.window call.2) :=
      ⟨fun same => same ▸ median, fun other => median.unique other odd⟩
    rw [TimeData.setOffset_moved median, Ne, least, most, not_lt]
    exact ⟨fun few _ _ _ _ => few, fun few => few full known enough odd⟩
  · refine ⟨_, if_neg sets, iff_of_true ⟨start, fun moved => absurd rfl moved⟩ ?_⟩
    exact fun _ _ enough odd => absurd ⟨enough, odd⟩ sets

/-- **Peers move the clock by less than 70 minutes** around every call, and only to the median of the
samples held, exactly if at each call that sets the clock the least number of 64 bits is not most of
the samples. -/
theorem addTimeData_moves_iff (calls : List (CNetAddr × Int64)) :
    (∀ earlier call later, calls = earlier ++ call :: later →
      ∃ before after, run addTimeData earlier TimeData.init = some before ∧
        addTimeData call before = some after ∧ OffsetMoved before after) ↔
      RunMeets addTimeData LeastNotMost calls TimeData.init := by
  refine steps_iff_runMeets (fun state => |state.nTimeOffset.toInt| < 70 * 60)
    (fun call before start => ?_) (fun _ _ _ moved => moved.bounded) (by decide)
  obtain ⟨after, performed, moved⟩ := addTimeData_performed call before start
  rw [← moved]
  constructor
  · intro found
    obtain ⟨other, same, moves⟩ := found
    exact Option.some.inj (performed.symm.trans same) ▸ moves
  · exact fun moves => ⟨after, performed, moves⟩

/-- Three peers among four that send the least number. -/
theorem addTimeData_least_moves : ∃ after,
    run addTimeData [(List.replicate 15 0 ++ [1], Int64.minValue),
      (List.replicate 15 0 ++ [2], Int64.minValue), (List.replicate 15 0 ++ [3], Int64.minValue),
      (List.replicate 15 0 ++ [4], 0)] TimeData.init = some after ∧
    ¬|after.nTimeOffset.toInt| < 70 * 60 :=
  ⟨_, rfl, by decide⟩

end DogeCash
