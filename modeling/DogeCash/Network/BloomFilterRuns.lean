import DogeCash.Foundation.Checked
import DogeCash.Foundation.Run
import DogeCash.Foundation.Success
import DogeCash.Network.BloomFilter

/-! # What a bloom filter keeps

What was inserted into a filter is found again as long as its flags say what its bits say. `Merge`
leaves the flag of an empty filter as it was, and without hash functions a key sets no bit, so that
`UpdateEmptyFull` takes the filter for empty; a short zerocoin script is sliced beyond its end.
-/

namespace DogeCash

open PackedBits (bitAt bitAt_eq bitAt_setBit)

namespace CBloomFilter

/-- A filter with the keys that it must contain. -/
structure Known where
  filter : CBloomFilter
  keys : Set (List UInt8)

inductive Action where
  | insert (vKey : List UInt8)
  | merge (other : AcceptedFilter)
  | updateEmptyFull
  | isRelevantAndUpdate (tx : CTransaction)

def contained (filter : CBloomFilter) : Set (List UInt8) :=
  { vKey | filter.contains vKey = .ok true }

/-- Perform an operation, and keep account of the keys that were inserted or merged. -/
def perform (env : BloomEnv) (known : Known) : Action → Except BloomFault Known
  | .insert vKey => do
    let filter ← known.filter.insert vKey
    return ⟨filter, Set.insert vKey known.keys⟩
  | .merge other => do
    let (merged, filter) ← known.filter.merge other.1
    return ⟨filter, if merged then known.keys ∪ other.1.contained else known.keys⟩
  | .updateEmptyFull => .ok ⟨known.filter.updateEmptyFull, known.keys⟩
  | .isRelevantAndUpdate tx => do
    let (_, filter) ← known.filter.isRelevantAndUpdate env tx
    return ⟨filter, known.keys⟩

def step (env : BloomEnv) (action : Action) (known : Known) : Option Known :=
  (perform env known action).toOption

/-- The filter contains every key that was inserted. -/
def KeepsKeys (known : Known) : Prop := ∀ vKey ∈ known.keys, known.filter.contains vKey = .ok true

/-- The spends among the inputs are long enough, up to the first input that ends the search. -/
def LongSpends (env : BloomEnv) (filter : CBloomFilter) : List CTxIn → Prop
  | [] => True
  | txin :: rest =>
    filter.contains (COutPoint.serialize txin.prevout) = .ok true ∨
      (CScript.isZerocoinSpend txin.scriptSig = true → 44 ≤ txin.scriptSig.length) ∧
        (filter.scan (spendData env txin) txin.scriptSig = .ok (some false) →
          LongSpends env filter rest)

/-- The mints are long enough, and so are the spends if neither the transaction nor an output is
found in the filter. -/
def HasLongScripts (env : BloomEnv) (filter : CBloomFilter) (tx : CTransaction) : Prop :=
  (∀ txout ∈ tx.vout, txout.isZerocoinMint = true → 6 ≤ txout.scriptPubKey.length) ∧
    (filter.contains (UInt256.serialize tx.hash) = .ok false →
      (∀ txout ∈ tx.vout, filter.scan (mintData txout) txout.scriptPubKey ≠ .ok (some true)) →
        filter.LongSpends env tx.vin)

/-- The condition on an operation: neither of the filters to be merged has all bits set, and only
an empty one is merged into a filter that is flagged as empty; a filter without hash functions, bits
and flags is not updated; and a transaction has no short zerocoin scripts, unless the flags decide
about it. -/
def IsSafe (env : BloomEnv) (known : Known) : Action → Prop
  | .insert _ => True
  | .merge other =>
    known.filter.matchesAll = false ∧ other.1.matchesAll = false ∧
      (known.filter.isCompatible other.1 = true → known.filter.isEmpty = true →
        other.1.isEmpty = true)
  | .updateEmptyFull =>
    known.filter.nHashFuncs ≠ 0 ∨ known.filter.isFull = true ∨ known.filter.isEmpty = true ∨
      (known.filter.vData.all fun b => b = 0) = false
  | .isRelevantAndUpdate tx =>
    known.filter.isFull = true ∨ known.filter.isEmpty = true ∨ HasLongScripts env known.filter tx

/-! ## Bits -/

def index (filter : CBloomFilter) (vKey : List UInt8) (i : ℕ) : ℕ :=
  (murmurHash3 (UInt32.ofNat i * 0xFBA4C795 + filter.nTweak) vKey).toNat % (filter.vData.length * 8)

def Shows (filter : CBloomFilter) (vKey : List UInt8) : Prop :=
  ∀ i < filter.nHashFuncs.toNat, bitAt filter.vData (filter.index vKey i) = true

/-- A filter with more bits, and with the flag of an empty filter changed. -/
structure Extends (filter after : CBloomFilter) : Prop where
  length : after.vData.length = filter.vData.length
  isFull : after.isFull = filter.isFull
  nHashFuncs : after.nHashFuncs = filter.nHashFuncs
  nTweak : after.nTweak = filter.nTweak
  bits : ∀ p, bitAt filter.vData p = true → bitAt after.vData p = true

section Bits

variable {filter after other : CBloomFilter} {vKey : List UInt8} {i n : ℕ}

theorem Extends.refl (filter : CBloomFilter) : filter.Extends filter :=
  ⟨rfl, rfl, rfl, rfl, fun _ => id⟩

theorem Extends.trans {last : CBloomFilter} (first : filter.Extends after)
    (second : after.Extends last) : filter.Extends last where
  length := second.length.trans first.length
  isFull := second.isFull.trans first.isFull
  nHashFuncs := second.nHashFuncs.trans first.nHashFuncs
  nTweak := second.nTweak.trans first.nTweak
  bits p set := second.bits p (first.bits p set)

section

variable (extension : filter.Extends after)
include extension

theorem Extends.index (vKey : List UInt8) (i : ℕ) : after.index vKey i = filter.index vKey i := by
  rw [CBloomFilter.index, CBloomFilter.index, extension.length, extension.nTweak]

theorem Extends.shows (shows : filter.Shows vKey) : after.Shows vKey := by
  intro i inRange
  rw [extension.index]
  exact extension.bits _ (shows i (extension.nHashFuncs ▸ inRange))

theorem Extends.ne_nil (some : filter.vData ≠ []) : after.vData ≠ [] := by
  rw [← List.length_pos_iff, extension.length]
  exact List.length_pos_iff.mpr some

end

theorem index_lt (some : filter.vData ≠ []) (vKey : List UInt8) (i : ℕ) :
    filter.index vKey i < filter.vData.length * 8 :=
  Nat.mod_lt _ (Nat.mul_pos (List.length_pos_iff.mpr some) (by decide))

theorem hash_eq (some : filter.vData ≠ []) : filter.hash i vKey = .ok (filter.index vKey i) := by
  have positive : filter.vData.length * 8 ≠ 0 := Nat.ne_zero_of_lt (index_lt some vKey i)
  rw [hash, if_neg positive, index]

theorem setBit_yields (inside : n < filter.vData.length * 8) :
    Yields (fun after => filter.Extends after ∧ bitAt after.vData n = true)
      (filter.setBit n) := by
  have within : n / 8 < filter.vData.length := Nat.div_lt_of_lt_mul (by omega)
  have asBits : filter.vData.modify (n / 8) (· ||| PackedBits.single true (n % 8)) =
      PackedBits.setBit (List.replicate (n + 1) true) filter.vData n := by
    rw [PackedBits.setBit, List.getD_eq_getElem?_getD, List.getElem?_replicate,
      if_pos (Nat.lt_succ_self n), Option.getD_some]
  rw [setBit, if_pos within, asBits]
  refine Yields.ok ⟨⟨PackedBits.length_setBit _ _ _, rfl, rfl, rfl, fun p set => ?_⟩, ?_⟩
  · rw [bitAt_setBit p inside, set, Bool.true_or]
  · rw [bitAt_setBit n inside, decide_eq_true rfl, Bool.true_and, List.getD_eq_getElem?_getD,
      List.getElem?_replicate, if_pos (Nat.lt_succ_self n), Option.getD_some, Bool.or_true]

section

variable (some : filter.vData ≠ [])
include some

theorem insertHash_yields :
    Yields (fun after => filter.Extends after ∧
        bitAt after.vData (filter.index vKey i) = true) (insertHash vKey filter i) := by
  have start : Yields (fun nIndex => nIndex = filter.index vKey i) (filter.hash i vKey) :=
    ⟨_, hash_eq some, rfl⟩
  refine start.bind fun nIndex same => ?_
  rw [same]
  exact setBit_yields (index_lt some vKey i)

theorem foldlM_insertHash_yields (hashes : List ℕ) :
    Yields (fun after => filter.Extends after ∧
        ∀ i ∈ hashes, bitAt after.vData (filter.index vKey i) = true)
      (hashes.foldlM (insertHash vKey) filter) := by
  induction hashes generalizing filter with
  | nil => exact Yields.ok ⟨.refl filter, fun _ => nofun⟩
  | cons first hashes ih =>
    refine (insertHash_yields some).bind fun middle holds => ?_
    obtain ⟨extension, set⟩ := holds
    refine (ih (extension.ne_nil some)).mono fun after later => ?_
    refine ⟨extension.trans later.1, fun i mem => ?_⟩
    rcases List.mem_cons.mp mem with rfl | rest
    · exact later.1.bits _ set
    · rw [← extension.index]
      exact later.2 i rest

theorem insert_yields (partly : filter.isFull = false) :
    Yields (fun after => filter.Extends after ∧ after.isEmpty = false ∧ after.Shows vKey)
      (filter.insert vKey) := by
  rw [insert, partly, if_neg Bool.false_ne_true]
  refine (foldlM_insertHash_yields some _).bind fun after holds => Yields.ok ⟨?_, rfl, ?_⟩
  · exact ⟨holds.1.length, holds.1.isFull, holds.1.nHashFuncs, holds.1.nTweak, holds.1.bits⟩
  · intro i inRange
    have set := holds.2 i (List.mem_range.mpr (holds.1.nHashFuncs ▸ inRange))
    rw [← holds.1.index] at set
    exact set

theorem containsHashes_eq (hashes : List ℕ) :
    filter.containsHashes vKey hashes =
      .ok (hashes.all fun i => bitAt filter.vData (filter.index vKey i)) := by
  induction hashes with
  | nil => rfl
  | cons first hashes ih =>
    have within : filter.index vKey first / 8 < filter.vData.length :=
      Nat.div_lt_of_lt_mul (Nat.mul_comm _ _ ▸ index_lt some vKey first)
    have bit : filter.checkBit (filter.index vKey first) =
        .ok (bitAt filter.vData (filter.index vKey first)) := by
      rw [checkBit, bitAt, List.getD_eq_getElem?_getD, List.getElem?_eq_getElem within]
      rfl
    rw [containsHashes, hash_eq some]
    simp only [bind, Except.bind, bit, List.all_cons]
    cases bitAt filter.vData (filter.index vKey first) with
    | false => rfl
    | true => exact ih

theorem contains_eq (partly : filter.isFull = false) (vKey : List UInt8) :
    filter.contains vKey = .ok (!filter.isEmpty && (List.range filter.nHashFuncs.toNat).all
      fun i => bitAt filter.vData (filter.index vKey i)) := by
  rw [contains, partly, if_neg Bool.false_ne_true]
  cases filter.isEmpty with
  | true => rfl
  | false => exact containsHashes_eq some _

theorem contains_iff (partly : filter.isFull = false) :
    filter.contains vKey = .ok true ↔ filter.isEmpty = false ∧ filter.Shows vKey := by
  rw [contains_eq some partly, Except.ok.injEq, Bool.and_eq_true, Bool.not_eq_true',
    List.all_eq_true]
  simp [Shows]

end

end Bits

/-! ## The invariant -/

/-- A full filter has all bits set, and no filter without bytes is anything else. Otherwise an empty
filter has no keys to contain, and the bits of all keys are set. -/
structure Sound (keys : Set (List UInt8)) (filter : CBloomFilter) : Prop where
  full : filter.isFull = true → filter.matchesAll = true
  some : filter.isFull = false → filter.vData ≠ []
  empty : filter.isFull = false → filter.isEmpty = true → ∀ vKey, vKey ∉ keys
  shows : filter.isFull = false → ∀ vKey ∈ keys, filter.Shows vKey

section Invariant

variable {filter after : CBloomFilter} {keys fewer : Set (List UInt8)} {vKey : List UInt8}

theorem Sound.contains (sound : filter.Sound keys) (mem : vKey ∈ keys) :
    filter.contains vKey = .ok true := by
  cases full : filter.isFull with
  | true => rw [CBloomFilter.contains, full, if_pos rfl]
  | false =>
    refine (contains_iff (sound.some full) full).mpr ⟨?_, sound.shows full vKey mem⟩
    exact Bool.eq_false_iff.mpr fun empty => sound.empty full empty vKey mem

theorem Sound.mono (sound : filter.Sound keys) (subset : fewer ⊆ keys) : filter.Sound fewer where
  full := sound.full
  some := sound.some
  empty full empty vKey mem := sound.empty full empty vKey (subset mem)
  shows full vKey mem := sound.shows full vKey (subset mem)

theorem Sound.of_updateEmptyFull (received : CBloomFilter) : received.updateEmptyFull.Sound ∅ where
  full := id
  some := by
    intro partly none
    rw [updateEmptyFull] at partly none
    rw [none] at partly
    cases partly
  empty _ _ vKey mem := mem
  shows _ vKey mem := mem.elim

theorem AcceptedFilter.eq_updateEmptyFull (other : AcceptedFilter) :
    ∃ received : CBloomFilter, other.1 = received.updateEmptyFull := by
  obtain ⟨-, received, loaded⟩ := other
  rw [filterLoad] at loaded
  split_ifs at loaded
  exact ⟨received, (Option.some.inj loaded).symm⟩

theorem AcceptedFilter.sound (other : AcceptedFilter) : other.1.Sound ∅ := by
  obtain ⟨received, same⟩ := AcceptedFilter.eq_updateEmptyFull other
  rw [same]
  exact .of_updateEmptyFull received

theorem AcceptedFilter.isFull_eq (other : AcceptedFilter) :
    other.1.isFull = other.1.matchesAll := by
  obtain ⟨received, same⟩ := AcceptedFilter.eq_updateEmptyFull other
  rw [same]
  rfl

theorem Sound.insert (sound : filter.Sound keys) (vKey : List UInt8) :
    Yields (fun after => after.Sound (Set.insert vKey keys) ∧ after.isFull = filter.isFull)
      (filter.insert vKey) := by
  cases full : filter.isFull with
  | true =>
    rw [CBloomFilter.insert, full, if_pos rfl]
    have never {goal : Prop} (partly : filter.isFull = false) : goal := by
      rw [full] at partly
      cases partly
    exact Yields.ok ⟨⟨sound.full, never, never, never⟩, full⟩
  | false =>
    refine (insert_yields (sound.some full) full).mono fun after holds => ?_
    obtain ⟨extension, touched, shows⟩ := holds
    refine ⟨⟨fun isFull => ?_, fun _ => extension.ne_nil (sound.some full), ?_, ?_⟩,
      extension.isFull.trans full⟩
    · rw [extension.isFull, full] at isFull
      cases isFull
    · intro _ empty
      rw [touched] at empty
      cases empty
    · intro _ other mem
      rcases mem with rfl | before
      · exact shows
      · exact extension.shows (sound.shows full other before)

theorem bitAt_zipWith {first second : List UInt8} (same : second.length = first.length) (p : ℕ) :
    bitAt (List.zipWith (· ||| ·) first second) p = (bitAt first p || bitAt second p) := by
  rw [bitAt_eq, bitAt_eq, bitAt_eq]
  simp only [List.getD_eq_getElem?_getD, List.getElem?_zipWith]
  by_cases within : p / 8 < first.length
  · rw [List.getElem?_eq_getElem within, List.getElem?_eq_getElem (same ▸ within)]
    simp
  · rw [List.getElem?_eq_none (Nat.not_lt.mp within),
      List.getElem?_eq_none (same ▸ Nat.not_lt.mp within)]
    simp

theorem Sound.merge (sound : filter.Sound keys) (other : AcceptedFilter)
    (mineOpen : filter.matchesAll = false) (theirsOpen : other.1.matchesAll = false)
    (empties : filter.isCompatible other.1 = true → filter.isEmpty = true →
      other.1.isEmpty = true) :
    Yields (fun result : Bool × CBloomFilter => result.2.Sound
        (if result.1 then keys ∪ other.1.contained else keys)) (filter.merge other.1) := by
  have partly : filter.isFull = false := by
    refine Bool.eq_false_iff.mpr fun full => ?_
    rw [sound.full full] at mineOpen
    cases mineOpen
  rw [CBloomFilter.merge, mineOpen, theirsOpen]
  by_cases compatible : filter.isCompatible other.1 = true
  · rw [if_pos (by rfl), if_neg (by simp [compatible])]
    have alike := compatible
    simp only [isCompatible, Bool.and_eq_true, decide_eq_true_eq] at alike
    obtain ⟨⟨length, nHashFuncs⟩, nTweak⟩ := alike
    have size : (List.zipWith (· ||| ·) filter.vData other.1.vData).length =
        filter.vData.length := by
      rw [List.length_zipWith, length, Nat.min_self]
    have otherPartly : other.1.isFull = false := (AcceptedFilter.isFull_eq other).trans theirsOpen
    have otherSome := (AcceptedFilter.sound other).some otherPartly
    have mine : filter.Extends
        { filter with vData := List.zipWith (· ||| ·) filter.vData other.1.vData } :=
      ⟨size, rfl, rfl, rfl, fun p set => by rw [bitAt_zipWith length, set, Bool.true_or]⟩
    have theirs : other.1.Extends
        { filter with
          vData := List.zipWith (· ||| ·) filter.vData other.1.vData
          isFull := other.1.isFull } :=
      ⟨size.trans length.symm, rfl, nHashFuncs.symm, nTweak.symm,
        fun p set => by rw [bitAt_zipWith length, set, Bool.or_true]⟩
    refine Yields.ok ⟨fun full => ?_, fun _ => mine.ne_nil (sound.some partly), ?_, ?_⟩
    · rw [mine.isFull, partly] at full
      cases full
    · rintro _ empty vKey (before | merged)
      · exact sound.empty partly empty vKey before
      · have found := (contains_iff otherSome otherPartly).mp merged
        rw [empties compatible empty] at found
        cases found.1
    · rintro _ vKey (before | merged)
      · exact mine.shows (sound.shows partly vKey before)
      · exact theirs.shows ((contains_iff otherSome otherPartly).mp merged).2
  · rw [if_pos (by rfl), if_pos (by simp [compatible])]
    exact Yields.ok sound

theorem bitAt_of_zeros {bytes : List UInt8} (zeros : (bytes.all fun b => b = 0) = true) (p : ℕ) :
    bitAt bytes p = false := by
  have zero : bytes.getD (p / 8) 0 = 0 := by
    rw [List.getD_eq_getElem?_getD]
    cases there : bytes[p / 8]? with
    | none => rfl
    | some byte =>
      have zero := List.all_eq_true.mp zeros byte (List.mem_of_getElem? there)
      exact of_decide_eq_true zero
  rw [bitAt_eq, zero]
  exact Nat.zero_testBit _

theorem Sound.updateEmptyFull (sound : filter.Sound keys)
    (safe : filter.nHashFuncs ≠ 0 ∨ filter.isFull = true ∨ filter.isEmpty = true ∨
      (filter.vData.all fun b => b = 0) = false) : filter.updateEmptyFull.Sound keys := by
  have before (partly : filter.updateEmptyFull.isFull = false) : filter.isFull = false := by
    refine Bool.eq_false_iff.mpr fun full => ?_
    have still : filter.updateEmptyFull.isFull = true := sound.full full
    rw [partly] at still
    cases still
  refine ⟨id, (Sound.of_updateEmptyFull filter).some, fun partly zeros vKey mem => ?_,
    fun partly => sound.shows (before partly)⟩
  rcases safe with hashes | full | empty | ones
  · -- Some bit of the key is set.
    have first : 0 < filter.nHashFuncs.toNat :=
      Nat.pos_of_ne_zero fun none => hashes (UInt32.toNat_inj.mp none)
    have set := sound.shows (before partly) vKey mem 0 first
    rw [bitAt_of_zeros zeros] at set
    cases set
  · rw [before partly] at full
    cases full
  · exact sound.empty (before partly) empty vKey mem
  · exact absurd zeros (Bool.eq_false_iff.mp ones)

theorem scan_yields {dataOf : List UInt8 → Except BloomFault (Option (List UInt8))}
    (some : filter.vData ≠ []) (partly : filter.isFull = false)
    (reads : ∀ pushed, Yields (fun _ => True) (dataOf pushed)) (pc : CScript) :
    Yields (fun _ => True) (filter.scan dataOf pc) := by
  induction length : pc.length using Nat.strongRecOn generalizing pc with
  | ind length ih =>
    rw [scan]
    split
    · exact Yields.ok trivial
    · next opcode pushed rest read =>
        refine (reads pushed).bind fun data _ => ?_
        cases data with
        | none => exact Yields.ok trivial
        | some data =>
          have found : Yields (fun _ => True) (filter.containsData data) := by
            rw [containsData]
            split_ifs
            · exact Yields.ok trivial
            · rw [contains_eq some partly]
              exact Yields.ok trivial
          refine found.bind fun found _ => ?_
          split_ifs
          · exact Yields.ok trivial
          · exact ih _ (length ▸ CScript.getOp_length read) rest rfl

theorem slice_yields {script : CScript} {first : ℕ} (long : first ≤ script.length) :
    Yields (fun _ => True) (slice script first) := by
  rw [slice, if_neg (Nat.not_lt.mpr long)]
  exact Yields.ok trivial

theorem visitOutput_yields {hash : UInt256} {state : Bool × CBloomFilter} {output : CTxOut × ℕ}
    (sound : state.2.Sound keys) (partly : state.2.isFull = false)
    (long : output.1.isZerocoinMint = true → 6 ≤ output.1.scriptPubKey.length) :
    Yields (fun next : Bool × CBloomFilter => next.2.Sound keys ∧ next.2.isFull = false)
      (visitOutput hash state output) := by
  have reads (pushed : List UInt8) : Yields (fun _ => True) (mintData output.1 pushed) := by
    rw [mintData]
    split_ifs with mint
    · exact (slice_yields (long mint)).map fun _ => id
    · exact Yields.ok trivial
  refine (scan_yields (sound.some partly) partly reads _).bind fun found _ => ?_
  split_ifs
  · refine (sound.insert _).bind fun filter holds => Yields.ok ⟨holds.1.mono ?_, ?_⟩
    · exact Set.subset_insert _ _
    · exact holds.2.trans partly
  · exact Yields.ok ⟨sound, partly⟩
  · exact Yields.ok ⟨sound, partly⟩

theorem visitInputs_yields (env : BloomEnv) (bytes : filter.vData ≠ [])
    (partly : filter.isFull = false) {vin : List CTxIn} (long : filter.LongSpends env vin) :
    Yields (fun _ => True) (visitInputs env filter vin) := by
  induction vin with
  | nil => exact Yields.ok trivial
  | cons txin rest ih =>
    rw [visitInputs]
    cases contained : filter.contains (COutPoint.serialize txin.prevout) with
    | error fault => cases (contains_eq bytes partly _).symm.trans contained
    | ok found =>
      cases found with
      | true => exact Yields.ok trivial
      | false =>
        obtain ⟨spends, later⟩ := long.resolve_left (by rw [contained]; nofun)
        have reads (pushed : List UInt8) : Yields (fun _ => True) (spendData env txin pushed) := by
          rw [spendData]
          split_ifs with spend
          · exact (slice_yields (spends spend)).map fun _ => id
          · exact Yields.ok trivial
        obtain ⟨found, scanned, -⟩ := scan_yields bytes partly reads txin.scriptSig
        rw [scanned]
        match found, scanned with
        | none, _ => exact Yields.ok trivial
        | some true, _ => exact Yields.ok trivial
        | some false, scanned => exact ih (later scanned)

/-- Where the loop over the outputs has found nothing, it has left the filter as it was. -/
theorem foldlM_visitOutput_eq_false {hash : UInt256} {outputs : List (CTxOut × ℕ)}
    {state : Bool × CBloomFilter} (visited : outputs.foldlM (visitOutput hash) state =
      .ok (false, filter)) :
    state = (false, filter) ∧ ∀ output ∈ outputs,
      filter.scan (mintData output.1) output.1.scriptPubKey ≠ .ok (Option.some true) := by
  induction outputs generalizing state with
  | nil => exact ⟨Except.ok.inj visited, nofun⟩
  | cons output rest ih =>
    obtain ⟨next, visit, later⟩ := foldlM_cons_eq_ok.mp visited
    obtain ⟨rfl, others⟩ := ih later
    obtain ⟨found, scanned, visit⟩ := bind_eq_ok.mp visit
    split_ifs at visit with matched
    · obtain ⟨_, -, visit⟩ := bind_eq_ok.mp visit
      cases visit
    · cases visit
    · cases visit
      exact ⟨rfl, List.forall_mem_cons.mpr ⟨fun same => matched
        (Except.ok.inj (scanned.symm.trans same)), others⟩⟩

/-- `IsRelevantAndUpdate` keeps a filter sound where all zerocoin scripts are long enough, or where
the flags decide. -/
theorem Sound.isRelevantAndUpdate (env : BloomEnv) (sound : filter.Sound keys) {tx : CTransaction}
    (safe : filter.isFull = true ∨ filter.isEmpty = true ∨ HasLongScripts env filter tx) :
    Yields (fun result => result.2.Sound keys) (filter.isRelevantAndUpdate env tx) := by
  rw [CBloomFilter.isRelevantAndUpdate]
  split_ifs with full empty
  · exact Yields.ok sound
  · exact Yields.ok sound
  · obtain ⟨longMints, longSpends⟩ := (safe.resolve_left full).resolve_left empty
    have partly := Bool.eq_false_iff.mpr full
    obtain ⟨first, contained⟩ : ∃ first, filter.contains (UInt256.serialize tx.hash) = .ok first :=
      ⟨_, contains_eq (sound.some partly) partly _⟩
    obtain ⟨⟨found, final⟩, visited, holds⟩ : Yields
        (fun state : Bool × CBloomFilter => state.2.Sound keys ∧ state.2.isFull = false)
        (tx.vout.zipIdx.foldlM (visitOutput tx.hash) (first, filter)) :=
      Yields.foldlM _ (fun output mem state holds => visitOutput_yields holds.1 holds.2
        (longMints output.1 (List.fst_mem_of_mem_zipIdx mem))) ⟨sound, partly⟩
    rw [contained]
    change Yields _ (tx.vout.zipIdx.foldlM (visitOutput tx.hash) (first, filter) >>= _)
    rw [visited]
    cases found with
    | true => exact Yields.ok holds.1
    | false =>
      obtain ⟨start, unmatched⟩ := foldlM_visitOutput_eq_false visited
      obtain ⟨missed, rfl⟩ := Prod.mk.inj start
      have long := longSpends (missed ▸ contained) fun txout mem => by
        obtain ⟨position, found⟩ := List.mem_iff_getElem?.mp mem
        exact unmatched (txout, position) (List.mem_zipIdx_iff_getElem?.mpr found)
      exact (visitInputs_yields env (holds.1.some holds.2) holds.2 long).bind
        fun relevant _ => Yields.ok holds.1

end Invariant

/-! ## Runs -/

theorem Sound.keepsKeys {known : Known} (sound : known.filter.Sound known.keys) :
    KeepsKeys known := fun _ mem => sound.contains mem

theorem perform_yields (env : BloomEnv) {known : Known} {action : Action}
    (sound : known.filter.Sound known.keys) (safe : IsSafe env known action) :
    Yields (fun next => next.filter.Sound next.keys) (perform env known action) := by
  cases action with
  | insert vKey => exact (sound.insert vKey).bind fun filter holds => Yields.ok holds.1
  | merge other =>
    refine (sound.merge other safe.1 safe.2.1 safe.2.2).bind fun result holds => ?_
    exact Yields.ok holds
  | updateEmptyFull => exact Yields.ok (sound.updateEmptyFull safe)
  | isRelevantAndUpdate tx =>
    exact (sound.isRelevantAndUpdate env safe).bind fun result holds => Yields.ok holds

/-- **Bloom filters.** In every run of operations that meet the condition, from a filter that
`filterload` has accepted on, no operation faults, and in every state the filter contains what was
inserted or merged. -/
theorem bloomRun_keepsKeys (env : BloomEnv) (loaded : AcceptedFilter) (actions : List Action)
    (safe : RunMeets (step env) (IsSafe env) actions ⟨loaded.1, ∅⟩) :
    (run (step env) actions ⟨loaded.1, ∅⟩).isSome ∧
      RunStays (step env) KeepsKeys actions ⟨loaded.1, ∅⟩ := by
  have performed := safe.performed (fun known => known.filter.Sound known.keys)
    (fun action known safe sound => ?_) (AcceptedFilter.sound loaded)
  · exact ⟨performed.1, performed.2.imp fun known sound => sound.keepsKeys⟩
  · obtain ⟨next, result, holds⟩ := perform_yields env sound safe
    exact ⟨next, by rw [step, result]; rfl, holds⟩

instance decidableLongSpends (env : BloomEnv) (filter : CBloomFilter) :
    ∀ vin, Decidable (LongSpends env filter vin)
  | [] => inferInstanceAs (Decidable True)
  | _ :: rest =>
    have := decidableLongSpends env filter rest
    inferInstanceAs (Decidable (_ ∨ (_ → _) ∧ (_ → _)))

instance (known : Known) : ∀ action, Decidable (IsSafe env known action)
  | .insert _ => inferInstanceAs (Decidable True)
  | .merge _ => inferInstanceAs (Decidable (_ ∧ _ ∧ (_ → _ → _)))
  | .updateEmptyFull => inferInstanceAs (Decidable (_ ∨ _ ∨ _ ∨ _))
  | .isRelevantAndUpdate _ =>
    inferInstanceAs (Decidable (_ ∨ _ ∨ ((∀ _ ∈ _, _ → _) ∧ (_ → (∀ _ ∈ _, _ ≠ _) → _))))

def loadedFilter (vData : List UInt8) (nHashFuncs : UInt32)
    (small : vData.length ≤ 36000 ∧ nHashFuncs ≤ 50) : AcceptedFilter :=
  ⟨updateEmptyFull ⟨vData, true, false, nHashFuncs, 0, 1⟩, ⟨vData, true, false, nHashFuncs, 0, 1⟩,
    if_pos (by simp [isWithinSizeConstraints, small])⟩

def noSerials : BloomEnv := ⟨fun _ => none⟩

def blankFilter : AcceptedFilter := loadedFilter [0, 0] 2 (by decide)

def otherFilter : AcceptedFilter := loadedFilter [0, 4] 2 (by decide)

def hashlessFilter : AcceptedFilter := loadedFilter [1] 0 (by decide)

def sampleFilterActions : List Action := [.insert [1, 2, 3], .merge otherFilter, .updateEmptyFull]

theorem bloomRun_keepsKeys_sample :
    (run (step noSerials) sampleFilterActions ⟨blankFilter.1, ∅⟩).isSome ∧
      RunStays (step noSerials) KeepsKeys sampleFilterActions ⟨blankFilter.1, ∅⟩ :=
  bloomRun_keepsKeys noSerials _ _ (by decide)

def shortMintTx : CTransaction := ⟨1, 1, [], [.of 0 [0xc1]], 0⟩

/-- The script is sliced beyond its end. -/
theorem not_bloomRun_shortMintTx :
    ¬∀ (env : BloomEnv) (loaded : AcceptedFilter) (actions : List Action),
      (run (step env) actions ⟨loaded.1, ∅⟩).isSome ∧
        RunStays (step env) KeepsKeys actions ⟨loaded.1, ∅⟩ := by
  intro safe
  have goes := (safe noSerials hashlessFilter [.isRelevantAndUpdate shortMintTx]).1
  have faults : hashlessFilter.1.isRelevantAndUpdate noSerials shortMintTx =
      .error .outOfRange := by
    decide +kernel
  rw [run, step, perform, faults] at goes
  cases goes

end CBloomFilter

end DogeCash
