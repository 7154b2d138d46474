import DogeCash.Primitives.Serialize
import DogeCash.Script.ColdStakeTemplate

/-! # The signature hash

`SignatureHash` writes the transaction with the changes that the hash type asks for while it
serializes it; `SignatureHashOld`, which is kept in the tests, changes a copy and serializes
that. They hash the same bytes, except for a script that ends in a push with some of its data
missing: `GetOp` leaves the iterator behind the size of the push, and the new version takes that
for the end of the script. It announces the whole script, and writes it up to there.
-/

namespace DogeCash

open List (append_assoc cons_append ext_getElem flatMap_congr flatMap_def getElem_map
  getElem_mapIdx length_append length_cons length_map length_mapIdx nil_append take_left)
open Option (elim_some map_some some_ne_none)

open LittleEndian (bytes)

abbrev Op.OP_CODESEPARATOR : UInt8 := 0xab

open Op

namespace CScript

/-- Where `GetOp2` leaves the iterator when it fails: behind the opcode, and behind the size if
that is whole. -/
def stopAt : CScript → CScript
  | [] => []
  | opcode :: rest =>
    let behindSize (bytes : ℕ) := if rest.length < bytes then rest else rest.drop bytes
    if opcode = 0x4c then behindSize 1
    else if opcode = 0x4d then behindSize 2
    else if opcode = 0x4e then behindSize 4
    else rest

/-- The bytes that the loop over a script does not come to. -/
def unread : ℕ → CScript → CScript
  | 0, _ => []
  | fuel + 1, it =>
    match getOp it with
    | none => stopAt it
    | some (_, _, next) => unread fuel next

/-- `nCodeSeparators` -/
def countSeparators : ℕ → CScript → ℕ
  | 0, _ => 0
  | fuel + 1, it =>
    match getOp it with
    | none => 0
    | some (opcode, _, next) =>
      (if opcode = OP_CODESEPARATOR then 1 else 0) + countSeparators fuel next

/-- The second loop of `SerializeScriptCode`: the pieces between the separators, the first one
from `itBegin` on. Iterators are what the script has from them on. -/
def writePieces : ℕ → CScript → CScript → List UInt8
  | 0, _, _ => []
  | fuel + 1, itBegin, it =>
    match getOp it with
    | none => if itBegin = [] then [] else itBegin.take (itBegin.length - (stopAt it).length)
    | some (opcode, _, next) =>
      if opcode = OP_CODESEPARATOR then
        itBegin.take (itBegin.length - next.length - 1) ++ writePieces fuel next next
      else writePieces fuel itBegin next

/-- `CTransactionSignatureSerializer::SerializeScriptCode`; a script has fewer instructions than
there are rounds. -/
def serializeScriptCode (scriptCode : CScript) : List UInt8 :=
  let nCodeSeparators := countSeparators (scriptCode.length + 1) scriptCode
  writeCompactSize (scriptCode.length - nCodeSeparators) ++
    writePieces (scriptCode.length + 1) scriptCode scriptCode

end CScript

namespace SignatureHash

/-- `SIGHASH_ANYONECANPAY` -/
def fAnyoneCanPay (nHashType : Int32) : Bool := nHashType &&& 0x80 ≠ 0

/-- `SIGHASH_SINGLE` -/
def fHashSingle (nHashType : Int32) : Bool := nHashType &&& 0x1f = 3

/-- `SIGHASH_NONE` -/
def fHashNone (nHashType : Int32) : Bool := nHashType &&& 0x1f = 2

section Code

variable (scriptCode : CScript) (txTo : CTransaction) (nIn : ℕ) (nHashType : Int32)

/-- `SerializeInput`; the position is in range wherever it is called. -/
def serializeInput (nInput : ℕ) : List UInt8 :=
  let nInput := if fAnyoneCanPay nHashType then nIn else nInput
  match txTo.vin[nInput]? with
  | none => []
  | some txin =>
    let script :=
      if nInput ≠ nIn then serializeBytes [] else CScript.serializeScriptCode scriptCode
    let nSequence :=
      if nInput ≠ nIn ∧ (fHashSingle nHashType ∨ fHashNone nHashType) then 0
      else txin.nSequence.toNat
    txin.prevout.serialize ++ (script ++ bytes 4 nSequence)

/-- `SerializeOutput`; the position is in range wherever it is called. -/
def serializeOutput (nOutput : ℕ) : List UInt8 :=
  match txTo.vout[nOutput]? with
  | none => []
  | some txout =>
    if fHashSingle nHashType ∧ nOutput ≠ nIn then CTxOut.null.serialize else txout.serialize

def serialize : List UInt8 :=
  let nInputs := if fAnyoneCanPay nHashType then 1 else txTo.vin.length
  let nOutputs :=
    if fHashNone nHashType then 0
    else if fHashSingle nHashType then nIn + 1 else txTo.vout.length
  bytes 4 txTo.nVersion.toUInt32.toNat ++
    (writeCompactSize nInputs ++
      ((List.range nInputs).flatMap (serializeInput scriptCode txTo nIn nHashType) ++
        (writeCompactSize nOutputs ++
          ((List.range nOutputs).flatMap (serializeOutput txTo nIn nHashType) ++
            bytes 4 txTo.nLockTime.toNat))))

/-- What `SignatureHash` hashes; `none` where it returns 1 instead. -/
def preimage : Option (List UInt8) :=
  if txTo.vin.length ≤ nIn then none
  else if fHashSingle nHashType ∧ txTo.vout.length ≤ nIn then none
  else some (serialize scriptCode txTo nIn nHashType ++ bytes 4 nHashType.toUInt32.toNat)

def signatureHash (hash : List UInt8 → UInt256) : UInt256 :=
  match preimage scriptCode txTo nIn nHashType with
  | none => 1
  | some s => hash s

/-- The copy that `SignatureHashOld` makes; `none` where it returns 1. -/
def blankedCopy : Option CTransaction :=
  if txTo.vin.length ≤ nIn then none
  else
    let code := CScript.findAndDelete scriptCode [OP_CODESEPARATOR]
    let vin := txTo.vin.mapIdx fun i txin => { txin with scriptSig := if i = nIn then code else [] }
    let updatable := vin.mapIdx fun i txin => if i ≠ nIn then { txin with nSequence := 0 } else txin
    let single := (txTo.vout.take (nIn + 1)).mapIdx fun i txout =>
      if i < nIn then CTxOut.null else txout
    let blanked :=
      if fHashNone nHashType then some (updatable, [])
      else if fHashSingle nHashType then
        if txTo.vout.length ≤ nIn then none else some (updatable, single)
      else some (vin, txTo.vout)
    blanked.map fun (vin, vout) =>
      { txTo with
        vin := if fAnyoneCanPay nHashType then vin[nIn]?.toList else vin
        vout := vout }

/-- What `SignatureHashOld` hashes. -/
def preimageOld : Option (List UInt8) :=
  (blankedCopy scriptCode txTo nIn nHashType).map fun txTmp =>
    txTmp.serialize ++ bytes 4 nHashType.toUInt32.toNat

def signatureHashOld (hash : List UInt8 → UInt256) : UInt256 :=
  match preimageOld scriptCode txTo nIn nHashType with
  | none => 1
  | some s => hash s

end Code

end SignatureHash

/-! ### The script code -/

namespace CScript

/-- A script without its separators: instruction by instruction, and what cannot be read as it
is. -/
def withoutSeparators : ℕ → CScript → CScript
  | 0, _ => []
  | fuel + 1, it =>
    match getOp it with
    | none => it
    | some (opcode, _, next) =>
      (if opcode = OP_CODESEPARATOR then [] else it.take (it.length - next.length)) ++
        withoutSeparators fuel next

variable {data : Valtype} {fuel : ℕ} {it : CScript}

variable {it next : CScript}

theorem exists_of_getOp {opcode : UInt8} (read : getOp it = some (opcode, data, next)) :
    ∃ operand, it = opcode :: (operand ++ next) ∧
      it.take (it.length - next.length) = opcode :: operand := by
  obtain ⟨size, -, split⟩ := Encoded.of_getOp read
  refine ⟨size ++ data, by rw [split, append_assoc], ?_⟩
  have front : it = (opcode :: (size ++ data)) ++ next := by
    rw [split, cons_append, append_assoc]
  rw [front, length_append, Nat.add_sub_cancel, take_left]

theorem eq_cons_of_getOp_separator (read : getOp it = some (OP_CODESEPARATOR, data, next)) :
    it = OP_CODESEPARATOR :: next :=
  eq_cons_of_getOp (by decide) read

theorem exists_stopAt (it : CScript) : ∃ front, it = front ++ stopAt it := by
  cases it with
  | nil => exact ⟨[], rfl⟩
  | cons opcode rest =>
    have same : ∃ front, rest = front ++ stopAt (opcode :: rest) := by
      simp only [stopAt]
      split_ifs <;>
        first
        | exact ⟨[], rfl⟩
        | exact ⟨_, (List.take_append_drop _ rest).symm⟩
    obtain ⟨front, split⟩ := same
    refine ⟨opcode :: front, ?_⟩
    rw [cons_append, ← split]

theorem writePieces_append_unread (enough : it.length < fuel) (kept : CScript) :
    writePieces fuel (kept ++ it) it ++ unread fuel it = kept ++ withoutSeparators fuel it := by
  induction fuel generalizing it kept with
  | zero => omega
  | succ fuel ih =>
    rw [writePieces, unread, withoutSeparators]
    cases read : getOp it with
    | none =>
      obtain ⟨front, split⟩ := exists_stopAt it
      split_ifs with empty
      · rw [List.append_eq_nil_iff] at empty
        rw [empty.1, empty.2]
        rfl
      · have written : (kept ++ it).take ((kept ++ it).length - (stopAt it).length) =
            kept ++ front := by
          have whole : kept ++ it = (kept ++ front) ++ stopAt it := by
            rw [append_assoc, ← split]
          rw [whole, length_append, Nat.add_sub_cancel, take_left]
        rw [written, append_assoc, ← split]
    | some found =>
      obtain ⟨opcode, data, next⟩ := found
      have shorter := getOp_length read
      dsimp only
      by_cases separator : opcode = OP_CODESEPARATOR
      · subst separator
        have later : writePieces fuel ([] ++ next) next ++ unread fuel next =
            [] ++ withoutSeparators fuel next := ih (by omega) []
        have split := eq_cons_of_getOp_separator read
        have written : (kept ++ it).take ((kept ++ it).length - next.length - 1) = kept := by
          have size : (kept ++ it).length - next.length - 1 = kept.length := by
            rw [split, length_append, length_cons]
            omega
          rw [size, take_left]
        rw [if_pos rfl, if_pos rfl, written, nil_append, append_assoc]
        rw [nil_append, nil_append] at later
        rw [later]
      · obtain ⟨operand, split, taken⟩ := exists_of_getOp read
        have whole : kept ++ it = (kept ++ opcode :: operand) ++ next := by
          rw [split, append_assoc, cons_append]
        rw [if_neg separator, if_neg separator, taken, whole, ih (by omega), append_assoc]

theorem length_withoutSeparators (enough : it.length < fuel) :
    (withoutSeparators fuel it).length + countSeparators fuel it = it.length := by
  induction fuel generalizing it with
  | zero => omega
  | succ fuel ih =>
    rw [withoutSeparators, countSeparators]
    cases read : getOp it with
    | none => rfl
    | some found =>
      obtain ⟨opcode, data, next⟩ := found
      have shorter := getOp_length read
      have later : (withoutSeparators fuel next).length + countSeparators fuel next = next.length :=
        ih (by omega)
      obtain ⟨operand, split, taken⟩ := exists_of_getOp read
      dsimp only
      split_ifs with separator
      · subst separator
        rw [eq_cons_of_getOp_separator read, nil_append, length_cons]
        omega
      · have size := congrArg List.length split
        rw [length_cons, length_append] at size
        rw [taken, length_append, length_cons]
        omega

theorem withoutSeparators_fuel {fuel more : ℕ} (enough : it.length < fuel) (also : it.length < more) :
    withoutSeparators fuel it = withoutSeparators more it := by
  induction fuel generalizing more it with
  | zero => omega
  | succ fuel ih =>
    obtain ⟨more, rfl⟩ := Nat.exists_eq_add_one_of_ne_zero (Nat.ne_zero_of_lt also)
    rw [withoutSeparators, withoutSeparators]
    cases read : getOp it with
    | none => rfl
    | some found =>
      have shorter := getOp_length read
      exact congrArg _ (ih (by omega) (by omega))

theorem withoutSeparators_cons (next : CScript) :
    withoutSeparators ((OP_CODESEPARATOR :: next).length + 1) (OP_CODESEPARATOR :: next) =
      withoutSeparators (next.length + 1) next := by
  exact withoutSeparators_fuel (by simp) (Nat.lt_succ_self _)

theorem skipOccurrences_separator (rounds : ℕ) (it : CScript) :
    let kept := skipOccurrences [OP_CODESEPARATOR] rounds it
    withoutSeparators (kept.length + 1) kept = withoutSeparators (it.length + 1) it ∧
      kept.length ≤ it.length ∧ (it.length ≤ rounds → kept.head? ≠ some OP_CODESEPARATOR) := by
  induction rounds generalizing it with
  | zero =>
    refine ⟨rfl, Nat.le_refl _, fun short => ?_⟩
    rw [skipOccurrences, List.length_eq_zero_iff.mp (Nat.le_zero.mp short)]
    exact (some_ne_none _).symm
  | succ rounds ih =>
    rw [skipOccurrences]
    cases it with
    | nil => exact ⟨rfl, Nat.le_refl _, fun _ => (some_ne_none _).symm⟩
    | cons first rest =>
      by_cases separator : first = OP_CODESEPARATOR
      · subst separator
        obtain ⟨same, shorter, gone⟩ := ih rest
        refine ⟨same, ?_, fun enough => gone ?_⟩
        · exact Nat.le_trans shorter (Nat.le_succ _)
        · rw [length_cons] at enough
          omega
      · rw [if_neg (by simpa [List.isPrefixOf] using Ne.symm separator)]
        exact ⟨rfl, Nat.le_refl _, fun _ same => separator (Option.some.inj same)⟩

theorem findAndDelete_separator (script : CScript) :
    findAndDelete script [OP_CODESEPARATOR] = withoutSeparators (script.length + 1) script := by
  have loop (fuel : ℕ) (it : CScript) (enough : it.length < fuel) :
      deleteOccurrences [OP_CODESEPARATOR] fuel it = withoutSeparators (it.length + 1) it := by
    induction fuel generalizing it with
    | zero => omega
    | succ fuel ih =>
      obtain ⟨same, shorter, gone⟩ := skipOccurrences_separator it.length it
      rw [deleteOccurrences, ← same]
      generalize skipOccurrences [OP_CODESEPARATOR] it.length it = kept at same shorter gone
      rw [withoutSeparators]
      cases read : getOp kept with
      | none => rfl
      | some found =>
        obtain ⟨opcode, data, next⟩ := found
        have less := getOp_length read
        obtain ⟨operand, split, -⟩ := exists_of_getOp read
        have other : opcode ≠ OP_CODESEPARATOR := by
          intro separator
          apply gone (Nat.le_refl _)
          rw [split, List.head?_cons, separator]
        dsimp only
        rw [if_neg other, ih next (by omega)]
        congr 1
        exact withoutSeparators_fuel (Nat.lt_succ_self _) less
  exact loop _ script (Nat.lt_succ_self _)

theorem serializeScriptCode_append_unread (script : CScript) :
    serializeScriptCode script ++ unread (script.length + 1) script =
      serializeBytes (findAndDelete script [OP_CODESEPARATOR]) := by
  have pieces := writePieces_append_unread (Nat.lt_add_one script.length) []
  have size := length_withoutSeparators (Nat.lt_add_one script.length)
  rw [nil_append, nil_append] at pieces
  rw [findAndDelete_separator, serializeBytes, ← pieces, serializeScriptCode, append_assoc, pieces]
  congr 2
  omega

end CScript

/-! ### The transaction -/

namespace SignatureHash

theorem flatMap_range_getElem? {α β : Type} (items : List α) (write : ℕ → α → List β) :
    (List.range items.length).flatMap (fun i => (items[i]?).elim [] (write i)) =
      (items.mapIdx write).flatten := by
  rw [flatMap_def]
  congr 1
  apply ext_getElem
  · rw [length_map, List.length_range, length_mapIdx]
  · intro i inside also
    rw [length_map, List.length_range] at inside
    simp only [getElem_map, List.getElem_range, List.getElem?_eq_getElem inside,
      getElem_mapIdx, elim_some]

section Parts

variable (txTo : CTransaction) (nIn : ℕ) (nHashType : Int32)

def updates : Bool := fHashSingle nHashType || fHashNone nHashType

def inputBytes (code : List UInt8) (i : ℕ) (txin : CTxIn) : List UInt8 :=
  txin.prevout.serialize ++ ((if i ≠ nIn then serializeBytes [] else code) ++
    bytes 4 (if i ≠ nIn ∧ updates nHashType then 0 else txin.nSequence.toNat))

/-- The bytes of all inputs that are hashed. -/
def inputsBytes (code : List UInt8) : List UInt8 :=
  if fAnyoneCanPay nHashType then
    match txTo.vin[nIn]? with
    | none => []
    | some txin => inputBytes nIn nHashType code nIn txin
  else (txTo.vin.mapIdx (inputBytes nIn nHashType code)).flatten

def blankInput (code : CScript) (i : ℕ) (txin : CTxIn) : CTxIn where
  prevout := txin.prevout
  scriptSig := if i = nIn then code else []
  nSequence := if i ≠ nIn ∧ updates nHashType then 0 else txin.nSequence

def blankedVin (code : CScript) : List CTxIn :=
  let vin := txTo.vin.mapIdx (blankInput nIn nHashType code)
  if fAnyoneCanPay nHashType then vin[nIn]?.toList else vin

def blankedVout : List CTxOut :=
  if fHashNone nHashType then []
  else if fHashSingle nHashType then
    (txTo.vout.take (nIn + 1)).mapIdx fun i txout => if i < nIn then CTxOut.null else txout
  else txTo.vout

def OutOfRange : Prop :=
  txTo.vin.length ≤ nIn ∨ (fHashSingle nHashType = true ∧ txTo.vout.length ≤ nIn)

instance : Decidable (OutOfRange txTo nIn nHashType) := inferInstanceAs (Decidable (_ ∨ _))

variable {txTo nIn nHashType}

theorem not_single_of_none (nothing : fHashNone nHashType = true) :
    fHashSingle nHashType = false := by
  by_contra single
  simp only [fHashSingle, fHashNone, Bool.not_eq_false, decide_eq_true_eq] at single nothing
  rw [single] at nothing
  exact absurd nothing (by decide)

theorem serialize_blankInput (code : CScript) (i : ℕ) (txin : CTxIn) :
    (blankInput nIn nHashType code i txin).serialize =
      inputBytes nIn nHashType (serializeBytes code) i txin := by
  rw [CTxIn.serialize, inputBytes, blankInput]
  have script : serializeBytes (if i = nIn then code else []) =
      if i ≠ nIn then serializeBytes [] else serializeBytes code := by
    split_ifs <;> first | rfl | contradiction
  have sequence : (if i ≠ nIn ∧ updates nHashType then 0 else txin.nSequence).toNat =
      if i ≠ nIn ∧ updates nHashType then 0 else txin.nSequence.toNat := by
    split_ifs <;> rfl
  rw [script, sequence]

theorem blankedCopy_eq (scriptCode : CScript) (inRange : ¬OutOfRange txTo nIn nHashType) :
    blankedCopy scriptCode txTo nIn nHashType =
      some { txTo with
        vin := blankedVin txTo nIn nHashType
          (CScript.findAndDelete scriptCode [OP_CODESEPARATOR])
        vout := blankedVout txTo nIn nHashType } := by
  rw [OutOfRange, not_or, not_and, Nat.not_le] at inRange
  obtain ⟨input, output⟩ := inRange
  have updatable (others : updates nHashType = true) (code : CScript) :
      ((txTo.vin.mapIdx fun i txin =>
        ({ txin with scriptSig := if i = nIn then code else [] } : CTxIn)).mapIdx
          fun i txin => if i ≠ nIn then { txin with nSequence := 0 } else txin) =
        txTo.vin.mapIdx (blankInput nIn nHashType code) := by
    rw [List.mapIdx_mapIdx]
    congr 1
    funext i txin
    by_cases here : i = nIn <;> simp [here, blankInput, others]
  have locked (others : updates nHashType = false) (code : CScript) :
      (txTo.vin.mapIdx fun i txin =>
        ({ txin with scriptSig := if i = nIn then code else [] } : CTxIn)) =
        txTo.vin.mapIdx (blankInput nIn nHashType code) := by
    congr 1
    funext i txin
    simp [blankInput, others]
  rw [blankedCopy, if_neg (Nat.not_le.mpr input)]
  by_cases nothing : fHashNone nHashType = true
  · have others : updates nHashType = true := by rw [updates, nothing, Bool.or_true]
    simp only [updatable others, nothing, ↓reduceIte, map_some, blankedVin, blankedVout]
  · by_cases single : fHashSingle nHashType = true
    · have others : updates nHashType = true := by rw [updates, single, Bool.true_or]
      simp only [updatable others, nothing, single, output single, Bool.false_eq_true,
        ↓reduceIte, map_some, blankedVin, blankedVout]
    · have others : updates nHashType = false := by
        rw [updates, Bool.eq_false_of_not_eq_true nothing, Bool.eq_false_of_not_eq_true single]
        rfl
      simp [locked others, nothing, single, blankedVin, blankedVout]

theorem map_mapIdx {α β γ : Type} (items : List α) (f : ℕ → α → β) (g : β → γ) :
    (items.mapIdx f).map g = items.mapIdx fun i item => g (f i item) := by
  apply ext_getElem
  · rw [length_map, length_mapIdx, length_mapIdx]
  · intro i _ _
    simp only [getElem_map, getElem_mapIdx]

theorem serialize_blankedVin (code : CScript) :
    (blankedVin txTo nIn nHashType code).flatMap CTxIn.serialize =
      inputsBytes txTo nIn nHashType (serializeBytes code) := by
  simp only [blankedVin, inputsBytes]
  split_ifs with anyone
  · rw [List.getElem?_mapIdx]
    cases txTo.vin[nIn]? with
    | none => rfl
    | some txin =>
      rw [map_some, Option.toList_some, List.flatMap_singleton, serialize_blankInput]
  · rw [flatMap_def, map_mapIdx]
    simp only [serialize_blankInput]

theorem length_blankedVin (code : CScript) (inRange : nIn < txTo.vin.length) :
    (blankedVin txTo nIn nHashType code).length =
      if fAnyoneCanPay nHashType then 1 else txTo.vin.length := by
  simp only [blankedVin]
  split_ifs with anyone
  · rw [List.getElem?_mapIdx, List.getElem?_eq_getElem inRange]
    rfl
  · exact length_mapIdx

theorem serializeInputs_eq (scriptCode : CScript) :
    (List.range (if fAnyoneCanPay nHashType then 1 else txTo.vin.length)).flatMap
        (serializeInput scriptCode txTo nIn nHashType) =
      inputsBytes txTo nIn nHashType (CScript.serializeScriptCode scriptCode) := by
  have input (i : ℕ) : serializeInput scriptCode txTo nIn nHashType i =
      (txTo.vin[if fAnyoneCanPay nHashType then nIn else i]?).elim []
        (inputBytes nIn nHashType (CScript.serializeScriptCode scriptCode)
          (if fAnyoneCanPay nHashType then nIn else i)) := by
    rw [serializeInput]
    cases txTo.vin[if fAnyoneCanPay nHashType then nIn else i]? with
    | none => rfl
    | some txin => simp [inputBytes, updates]
  simp only [inputsBytes]
  split_ifs with anyone
  · simp only [anyone, ↓reduceIte] at input
    rw [List.range_one, List.flatMap_singleton, input]
    cases txTo.vin[nIn]? <;> rfl
  · simp only [anyone, Bool.false_eq_true, ↓reduceIte] at input
    rw [← flatMap_range_getElem?]
    exact flatMap_congr fun i _ => input i

theorem serializeOutputs_eq (inRange : ¬OutOfRange txTo nIn nHashType) :
    (List.range (if fHashNone nHashType then 0
        else if fHashSingle nHashType then nIn + 1 else txTo.vout.length)).flatMap
        (serializeOutput txTo nIn nHashType) =
      (blankedVout txTo nIn nHashType).flatMap CTxOut.serialize ∧
    (blankedVout txTo nIn nHashType).length =
      if fHashNone nHashType then 0
        else if fHashSingle nHashType then nIn + 1 else txTo.vout.length := by
  rw [OutOfRange, not_or, not_and, Nat.not_le] at inRange
  simp only [blankedVout]
  split_ifs with nothing single
  · exact ⟨rfl, rfl⟩
  · have enough : (txTo.vout.take (nIn + 1)).length = nIn + 1 := by
      have := inRange.2 single
      rw [List.length_take]
      omega
    refine ⟨?_, by rw [length_mapIdx, enough]⟩
    rw [flatMap_def, flatMap_def, map_mapIdx, ← flatMap_range_getElem?, enough, ← flatMap_def]
    apply flatMap_congr
    intro i mem
    have below : i < nIn + 1 := List.mem_range.mp mem
    rw [serializeOutput, List.getElem?_take_of_lt below]
    cases txTo.vout[i]? with
    | none => rfl
    | some txout =>
      simp only [single, true_and, elim_some]
      rcases Nat.lt_or_eq_of_le (Nat.le_of_lt_succ below) with before | here
      · rw [if_pos (Nat.ne_of_lt before), if_pos before]
      · rw [if_neg (not_not.mpr here), if_neg (by omega)]
  · refine ⟨?_, rfl⟩
    have output (i : ℕ) : serializeOutput txTo nIn nHashType i =
        (txTo.vout[i]?).elim [] CTxOut.serialize := by
      rw [serializeOutput]
      cases txTo.vout[i]? with
      | none => rfl
      | some txout => simp [single]
    rw [flatMap_congr fun i _ => output i,
      flatMap_range_getElem? txTo.vout fun _ => CTxOut.serialize, flatMap_def]
    congr 1
    apply ext_getElem
    · rw [length_mapIdx, length_map]
    · intro i _ _
      simp only [getElem_map, getElem_mapIdx]

variable (nHashType) in
theorem exists_inputsBytes (inRange : nIn < txTo.vin.length) :
    ∃ before after, ∀ code, inputsBytes txTo nIn nHashType code = before ++ (code ++ after) := by
  have own (txin : CTxIn) (code : List UInt8) : inputBytes nIn nHashType code nIn txin =
      txin.prevout.serialize ++ (code ++ bytes 4 txin.nSequence.toNat) := by
    simp [inputBytes]
  have other {i : ℕ} (txin : CTxIn) (apart : i ≠ nIn) (code : List UInt8) :
      inputBytes nIn nHashType code i txin = inputBytes nIn nHashType [] i txin := by
    simp [inputBytes, apart]
  simp only [inputsBytes]
  split_ifs with anyone
  · rw [List.getElem?_eq_getElem inRange]
    exact ⟨_, _, fun code => own txTo.vin[nIn] code⟩
  · have split : txTo.vin = txTo.vin.take nIn ++ txTo.vin[nIn] :: txTo.vin.drop (nIn + 1) := by
      rw [← List.drop_eq_getElem_cons inRange, List.take_append_drop]
    have size : (txTo.vin.take nIn).length = nIn := by
      rw [List.length_take]
      omega
    generalize txTo.vin.take nIn = earlier at split size
    generalize txTo.vin.drop (nIn + 1) = later at split
    generalize txTo.vin[nIn] = txin at split
    refine ⟨(earlier.mapIdx (inputBytes nIn nHashType [])).flatten ++ txin.prevout.serialize,
      bytes 4 txin.nSequence.toNat ++
        (later.mapIdx fun i => inputBytes nIn nHashType [] (i + 1 + nIn)).flatten,
      fun code => ?_⟩
    have first : earlier.mapIdx (inputBytes nIn nHashType code) =
        earlier.mapIdx (inputBytes nIn nHashType []) := by
      apply ext_getElem
      · rw [length_mapIdx, length_mapIdx]
      · intro i inside _
        rw [length_mapIdx] at inside
        rw [getElem_mapIdx, getElem_mapIdx, other _ (by omega)]
    have last : (later.mapIdx fun i => inputBytes nIn nHashType code (i + 1 + nIn)) =
        later.mapIdx fun i => inputBytes nIn nHashType [] (i + 1 + nIn) := by
      congr 1
      funext i txin
      exact other txin (by omega) code
    rw [split, List.mapIdx_append, List.mapIdx_cons, size, Nat.zero_add, own, first, last,
      List.flatten_append, List.flatten_cons]
    simp

theorem exists_preimages (scriptCode : CScript) (inRange : ¬OutOfRange txTo nIn nHashType) :
    ∃ before after,
      preimage scriptCode txTo nIn nHashType =
          some (before ++ (CScript.serializeScriptCode scriptCode ++ after)) ∧
        preimageOld scriptCode txTo nIn nHashType =
          some (before ++
            (serializeBytes (CScript.findAndDelete scriptCode [OP_CODESEPARATOR]) ++ after)) := by
  have apart := inRange
  rw [OutOfRange, not_or, not_and, Nat.not_le] at apart
  obtain ⟨before, after, inputs⟩ := exists_inputsBytes nHashType apart.1
  obtain ⟨outputs, count⟩ := serializeOutputs_eq inRange
  refine ⟨bytes 4 txTo.nVersion.toUInt32.toNat ++
      (writeCompactSize (if fAnyoneCanPay nHashType then 1 else txTo.vin.length) ++ before),
    after ++ (serializeVector CTxOut.serialize (blankedVout txTo nIn nHashType) ++
      (bytes 4 txTo.nLockTime.toNat ++ bytes 4 nHashType.toUInt32.toNat)), ?_, ?_⟩
  · rw [preimage, if_neg (Nat.not_le.mpr apart.1), if_neg (not_and.mpr apart.2)]
    simp only [serialize]
    rw [serializeInputs_eq, inputs, outputs, serializeVector, count]
    simp
  · rw [preimageOld, blankedCopy_eq scriptCode inRange, map_some, CTransaction.serialize]
    rw [serializeVector, length_blankedVin _ apart.1, serialize_blankedVin, inputs]
    simp

theorem preimage_eq_none_iff (scriptCode : CScript) :
    preimage scriptCode txTo nIn nHashType = none ↔ OutOfRange txTo nIn nHashType := by
  constructor
  · intro nothing
    by_contra inRange
    obtain ⟨before, after, written, -⟩ := exists_preimages scriptCode inRange
    rw [nothing] at written
    exact some_ne_none _ written.symm
  · intro outOfRange
    rw [preimage]
    split_ifs with input output
    · rfl
    · rfl
    · exact absurd outOfRange (not_or.mpr ⟨input, output⟩)

theorem preimageOld_eq_none_iff (scriptCode : CScript) :
    preimageOld scriptCode txTo nIn nHashType = none ↔ OutOfRange txTo nIn nHashType := by
  constructor
  · intro nothing
    by_contra inRange
    obtain ⟨before, after, -, written⟩ := exists_preimages scriptCode inRange
    rw [nothing] at written
    exact some_ne_none _ written.symm
  · intro outOfRange
    rw [preimageOld, Option.map_eq_none_iff, blankedCopy]
    rcases outOfRange with input | ⟨single, output⟩
    · rw [if_pos input]
    · have others : fHashNone nHashType = false := by
        by_contra nothing
        rw [not_single_of_none (Bool.eq_true_of_not_eq_false nothing)] at single
        exact Bool.false_ne_true single
      simp [others, single, output]

end Parts

/-- **The signature hash is that of the blanked copy where the script is read to its end.** The
two versions return 1 on the same inputs; and otherwise they hash the same bytes if and only if
the loop over the script code leaves nothing of it unread. -/
theorem preimage_eq_preimageOld_iff (scriptCode : CScript) (txTo : CTransaction) (nIn : ℕ)
    (nHashType : Int32) :
    (preimage scriptCode txTo nIn nHashType = preimageOld scriptCode txTo nIn nHashType ↔
      OutOfRange txTo nIn nHashType ∨ CScript.unread (scriptCode.length + 1) scriptCode = []) ∧
    (preimage scriptCode txTo nIn nHashType = none ↔
      preimageOld scriptCode txTo nIn nHashType = none) := by
  refine ⟨?_, by rw [preimage_eq_none_iff, preimageOld_eq_none_iff]⟩
  by_cases outOfRange : OutOfRange txTo nIn nHashType
  · rw [(preimage_eq_none_iff scriptCode).mpr outOfRange,
      (preimageOld_eq_none_iff scriptCode).mpr outOfRange]
    exact ⟨fun _ => .inl outOfRange, fun _ => rfl⟩
  · obtain ⟨before, after, new, old⟩ := exists_preimages scriptCode outOfRange
    have code := CScript.serializeScriptCode_append_unread scriptCode
    rw [new, old, ← code, Option.some_inj, List.append_cancel_left_eq, List.append_cancel_right_eq]
    constructor
    · intro same
      exact .inr (List.append_right_eq_self.mp same.symm)
    · intro whole
      rw [whole.resolve_left outOfRange, List.append_nil]

def sampleTransaction : CTransaction where
  hash := 0
  nVersion := 1
  vin := [⟨⟨1, 0⟩, [], 0xffffffff⟩]
  vout := [CTxOut.of 100 []]
  nLockTime := 0

/-- `OP_CHECKSIG`, and behind it a push of two bytes of which one is there: the new version
announces three bytes of script and writes two. -/
theorem preimage_ne_preimageOld_sample :
    ¬∀ scriptCode txTo nIn nHashType,
      preimage scriptCode txTo nIn nHashType = preimageOld scriptCode txTo nIn nHashType := by
  intro same
  have sizes := congrArg (Option.map List.length) (same [0xac, 0x02, 0x51] sampleTransaction 0 1)
  exact absurd sizes (by decide)

end SignatureHash

end DogeCash
