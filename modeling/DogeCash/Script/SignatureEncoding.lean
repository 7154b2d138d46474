import Mathlib.Data.List.GetD
import DogeCash.Foundation.Reads
import DogeCash.Foundation.TwosComplement
import DogeCash.Script.Interpreter

/-! # Strict signature encodings

`IsValidSignatureEncoding` finds its way by two length bytes of the signature. Each of its reads is
behind a check that the byte is there. What it accepts is DER: two integers that are not negative,
each in the shortest form, and the byte for the hash type. The integers and the hash type are
determined by the signature.
-/

namespace DogeCash.Encoding

open TwosComplement
open UInt8 (ofNat ofNat_toNat toNat_inj)

/-! ## The reads -/

/-- `len > 1 && sig[place] == 0x00 && !(sig[place + 1] & 0x80)` -/
def readNullStart (sig : Valtype) (len place : ℕ) : Except (Abort ScriptError) Bool :=
  if 1 < len then do
    let first ← readAt sig place
    if first = 0 then do
      let second ← readAt sig (place + 1)
      return second &&& 0x80 = 0
    else return false
  else return false

/-- `IsValidSignatureEncoding`, with every read where the source makes it. -/
def readSignatureEncoding (sig : Valtype) : Except (Abort ScriptError) Bool :=
  if sig.length < 9 then .ok false
  else if 73 < sig.length then .ok false
  else do
    let type ← readAt sig 0
    if type ≠ 0x30 then .ok false
    else do
      let total ← readAt sig 1
      if total.toNat ≠ sig.length - 3 then .ok false
      else do
        let lenR ← UInt8.toNat <$> readAt sig 3
        if 5 + lenR ≥ sig.length then .ok false
        else do
          let lenS ← UInt8.toNat <$> readAt sig (5 + lenR)
          if lenR + lenS + 7 ≠ sig.length then .ok false
          else do
            let typeR ← readAt sig 2
            if typeR ≠ 0x02 then .ok false
            else if lenR = 0 then .ok false
            else do
              let firstR ← readAt sig 4
              if firstR &&& 0x80 ≠ 0 then .ok false
              else do
                let nullR ← readNullStart sig lenR 4
                if nullR then .ok false
                else do
                  let typeS ← readAt sig (lenR + 4)
                  if typeS ≠ 0x02 then .ok false
                  else if lenS = 0 then .ok false
                  else do
                    let firstS ← readAt sig (lenR + 6)
                    if firstS &&& 0x80 ≠ 0 then .ok false
                    else do
                      let nullS ← readNullStart sig lenS (lenR + 6)
                      if nullS then .ok false else .ok true

/-! ## No read is out of range -/

variable {sig : Valtype}

theorem and_highBit (byte : UInt8) : byte &&& 0x80 ≠ 0 ↔ 0x80 ≤ byte.toNat := by
  have all : ∀ n < 256, ofNat n &&& 0x80 ≠ 0 ↔ 0x80 ≤ n := by decide +kernel
  have here := all byte.toNat byte.toNat_lt
  rwa [ofNat_toNat] at here

theorem readAt_inside {place : ℕ} (inside : place < sig.length) :
    (readAt sig place : Except (Abort ScriptError) UInt8) = .ok (sig.getD place 0) := by
  rw [readAt_eq_ok, List.getD_eq_getElem _ _ inside]
  exact List.getElem?_eq_getElem inside

theorem check_eq {first second : Prop} [Decidable first] [Decidable second] (same : first ↔ second)
    {reading : Except (Abort ScriptError) Bool} {plain : Bool}
    (rest : ¬second → reading = .ok plain) :
    (if first then .ok false else reading) = .ok (if second then false else plain) := by
  by_cases fails : second
  · rw [if_pos (same.mpr fails), if_pos fails]
  · rw [if_neg (same.not.mpr fails), if_neg fails]
    exact rest fails

theorem readNullStart_eq {len place : ℕ} (inside : 1 < len → place + 1 < sig.length) :
    readNullStart sig len place = .ok (1 < len ∧ (sig.getD place 0).toNat = 0 ∧
      ¬0x80 ≤ (sig.getD (place + 1) 0).toNat) := by
  rw [readNullStart]
  by_cases several : 1 < len
  · have bound := inside several
    have zero : sig.getD place 0 = 0 ↔ (sig.getD place 0).toNat = 0 := toNat_inj.symm
    have high := and_highBit (sig.getD (place + 1) 0)
    rw [if_pos several, readAt_inside (by omega), readAt_inside bound]
    by_cases null : (sig.getD place 0).toNat = 0
    · refine (if_pos (zero.mpr null)).trans ?_
      have same : sig.getD (place + 1) 0 &&& 0x80 = 0 ↔ 1 < len ∧ (sig.getD place 0).toNat = 0 ∧
          ¬0x80 ≤ (sig.getD (place + 1) 0).toNat := by
        rw [← high, not_not, and_iff_right several, and_iff_right null]
      exact congrArg Except.ok (decide_eq_decide.mpr same)
    · refine (if_neg (zero.not.mpr null)).trans ?_
      exact congrArg Except.ok (decide_eq_false fun found => null found.2.1).symm
  · rw [if_neg several]
    exact congrArg Except.ok (decide_eq_false fun found => several found.1).symm

theorem readSignatureEncoding_eq (sig : Valtype) :
    readSignatureEncoding sig = .ok (isValidSignatureEncoding sig) := by
  have differs (place : ℕ) (byte : UInt8) :
      sig.getD place 0 ≠ byte ↔ (sig.getD place 0).toNat ≠ byte.toNat := toNat_inj.not.symm
  refine check_eq Iff.rfl fun long => check_eq Iff.rfl fun short => ?_
  rw [readAt_inside (by omega), readAt_inside (by omega), readAt_inside (by omega)]
  refine check_eq (differs 0 0x30) fun type => check_eq Iff.rfl fun total => ?_
  refine check_eq Iff.rfl fun inside => ?_
  rw [readAt_inside (by omega)]
  refine check_eq Iff.rfl fun sum => ?_
  rw [readAt_inside (by omega)]
  refine check_eq (differs 2 0x02) fun typeR => check_eq Iff.rfl fun someR => ?_
  rw [readAt_inside (by omega)]
  refine check_eq (and_highBit _) fun positiveR => ?_
  rw [readNullStart_eq fun several => by omega]
  refine check_eq decide_eq_true_iff fun shortR => ?_
  rw [readAt_inside (by omega)]
  refine check_eq (differs _ 0x02) fun typeS => check_eq Iff.rfl fun someS => ?_
  rw [readAt_inside (by omega)]
  refine check_eq (and_highBit _) fun positiveS => ?_
  rw [readNullStart_eq fun several => by omega]
  exact check_eq decide_eq_true_iff fun shortS => rfl

/-! ## DER -/

def derSignature (r s : List UInt8) (nHashType : UInt8) : Valtype :=
  0x30 :: ofNat (r.length + s.length + 4) :: 0x02 :: ofNat r.length ::
    (r ++ 0x02 :: ofNat s.length :: (s ++ [nHashType]))

/-- The signature is DER for two integers that are not negative, with a byte for the hash type. -/
def IsDer (sig : Valtype) (r s : ℕ) (nHashType : UInt8) : Prop :=
  9 ≤ sig.length ∧ sig.length ≤ 73 ∧ ∃ first second, IsShortest first r ∧ IsShortest second s ∧
    sig = derSignature first second nHashType

theorem length_derSignature (r s : List UInt8) (nHashType : UInt8) :
    (derSignature r s nHashType).length = r.length + s.length + 7 := by
  simp [derSignature]
  omega

def laidOut (type total typeR lenR : UInt8) (r : List UInt8) (typeS lenS : UInt8) (s : List UInt8)
    (nHashType : UInt8) : Valtype :=
  type :: total :: typeR :: lenR :: (r ++ typeS :: lenS :: (s ++ [nHashType]))

theorem isMinimal_iff (bytes : List UInt8) :
    IsMinimal bytes ↔ ¬bytes.length = 0 ∧ ¬0x80 ≤ (bytes.getD 0 0).toNat ∧
      ¬(1 < bytes.length ∧ (bytes.getD 0 0).toNat = 0 ∧ ¬0x80 ≤ (bytes.getD 1 0).toNat) := by
  rcases bytes with _ | ⟨-, _ | ⟨-, -⟩⟩
  · exact iff_of_false id fun checks => checks.1 rfl
  · simp [IsMinimal]
  · simp [IsMinimal]

theorem isMinimal_iff_reads {bytes : List UInt8} {start : ℕ}
    (reads : ∀ place < bytes.length, sig.getD (start + place) 0 = bytes.getD place 0) :
    IsMinimal bytes ↔ ¬bytes.length = 0 ∧ ¬0x80 ≤ (sig.getD start 0).toNat ∧
      ¬(1 < bytes.length ∧ (sig.getD start 0).toNat = 0 ∧
        ¬0x80 ≤ (sig.getD (start + 1) 0).toNat) := by
  rw [isMinimal_iff]
  refine and_congr_right fun nonempty => ?_
  rw [← reads 0 (Nat.pos_of_ne_zero nonempty), Nat.add_zero]
  refine and_congr_right' (not_congr (and_congr_right fun several => ?_))
  rw [reads 1 several]

theorem exists_laidOut {m n : ℕ} (size : m + n + 7 = sig.length) :
    ∃ type total typeR lenR r typeS lenS s nHashType,
      sig = laidOut type total typeR lenR r typeS lenS s nHashType ∧ r.length = m ∧ s.length = n := by
  obtain ⟨type, front, rfl⟩ := List.exists_cons_of_length_eq_add_one size.symm
  obtain ⟨total, front, rfl⟩ := List.exists_cons_of_length_eq_add_one (Nat.succ.inj size).symm
  have size := Nat.succ.inj (Nat.succ.inj size)
  obtain ⟨typeR, front, rfl⟩ := List.exists_cons_of_length_eq_add_one size.symm
  obtain ⟨lenR, rest, rfl⟩ := List.exists_cons_of_length_eq_add_one (Nat.succ.inj size).symm
  have size : m + n + 3 = rest.length := Nat.succ.inj (Nat.succ.inj size)
  have behind : (rest.drop m).length = n + 2 + 1 := by
    rw [List.length_drop]
    omega
  obtain ⟨typeS, back, shape⟩ := List.exists_cons_of_length_eq_add_one behind
  rw [shape] at behind
  obtain ⟨lenS, back, rfl⟩ := List.exists_cons_of_length_eq_add_one (Nat.succ.inj behind)
  have size : back.length = n + 1 := Nat.succ.inj (Nat.succ.inj behind)
  have nonempty : back ≠ [] := List.ne_nil_of_length_eq_add_one size
  refine ⟨type, total, typeR, lenR, rest.take m, typeS, lenS, back.dropLast,
    back.getLast nonempty, ?_, List.length_take_of_le (by omega), ?_⟩
  · rw [laidOut, List.dropLast_append_getLast, ← shape, List.take_append_drop]
  · rw [List.length_dropLast, size]
    rfl

section Bytes

variable (type total typeR lenR typeS lenS nHashType : UInt8) (r s : List UInt8)

theorem length_laidOut : (laidOut type total typeR lenR r typeS lenS s nHashType).length =
    r.length + s.length + 7 := by
  simp [laidOut]
  omega

theorem getD_laidOut_r {place : ℕ} (inside : place < r.length) :
    (laidOut type total typeR lenR r typeS lenS s nHashType).getD (4 + place) 0 =
      r.getD place 0 := by
  have front : (laidOut type total typeR lenR r typeS lenS s nHashType).getD (4 + place) 0 =
      (r ++ typeS :: lenS :: (s ++ [nHashType])).getD place 0 := by
    rw [Nat.add_comm 4 place]
    rfl
  rw [front, List.getD_append _ _ _ _ inside]

theorem getD_laidOut_behind (place : ℕ) :
    (laidOut type total typeR lenR r typeS lenS s nHashType).getD (r.length + 4 + place) 0 =
      (typeS :: lenS :: (s ++ [nHashType])).getD place 0 := by
  have front : (laidOut type total typeR lenR r typeS lenS s nHashType).getD (r.length + 4 + place) 0
      = (r ++ typeS :: lenS :: (s ++ [nHashType])).getD (r.length + place) 0 := by
    rw [Nat.add_right_comm]
    rfl
  rw [front, List.getD_append_right _ _ _ _ (Nat.le_add_right _ _), Nat.add_sub_cancel_left]

theorem getD_laidOut_s {place : ℕ} (inside : place < s.length) :
    (laidOut type total typeR lenR r typeS lenS s nHashType).getD (r.length + 6 + place) 0 =
      s.getD place 0 := by
  have behind := getD_laidOut_behind type total typeR lenR typeS lenS nHashType r s (place + 2)
  rw [show r.length + 4 + (place + 2) = r.length + 6 + place by omega] at behind
  rw [behind]
  exact List.getD_append _ _ _ _ inside

end Bytes

theorem refused_or {refused : Prop} [Decidable refused] {rest : Bool} :
    (if refused then false else rest) = true ↔ ¬refused ∧ rest = true := by
  by_cases holds : refused
  · simp [holds]
  · simp [holds]

theorem isValid_laidOut (type total typeR lenR typeS lenS nHashType : UInt8) {r s : List UInt8}
    (sizeR : r.length = lenR.toNat) (sizeS : s.length = lenS.toNat) :
    isValidSignatureEncoding (laidOut type total typeR lenR r typeS lenS s nHashType) = true ↔
      9 ≤ r.length + s.length + 7 ∧ r.length + s.length + 7 ≤ 73 ∧ type = 0x30 ∧
        total.toNat = r.length + s.length + 4 ∧ typeR = 0x02 ∧ IsMinimal r ∧ typeS = 0x02 ∧
          IsMinimal s := by
  have size := length_laidOut type total typeR lenR typeS lenS nHashType r s
  have byteR {place : ℕ} (inside : place < r.length) :=
    getD_laidOut_r type total typeR lenR typeS lenS nHashType r s inside
  have byteS {place : ℕ} (inside : place < s.length) :=
    getD_laidOut_s type total typeR lenR typeS lenS nHashType r s inside
  have behind (place : ℕ) :=
    getD_laidOut_behind type total typeR lenR typeS lenS nHashType r s place
  have third : ((laidOut type total typeR lenR r typeS lenS s nHashType).getD 3 0).toNat =
      r.length := sizeR.symm
  have fourth : ((laidOut type total typeR lenR r typeS lenS s nHashType).getD
      (5 + r.length) 0).toNat = s.length := by
    rw [Nat.add_comm, show r.length + 5 = r.length + 4 + 1 from rfl, behind 1]
    exact sizeS.symm
  have minimalR := isMinimal_iff_reads fun _ => byteR
  have minimalS := isMinimal_iff_reads fun _ => byteS
  have first : ((laidOut type total typeR lenR r typeS lenS s nHashType).getD
      (r.length + 4) 0).toNat = typeS.toNat := congrArg UInt8.toNat (behind 0)
  have equals (byte other : UInt8) : byte = other ↔ byte.toNat = other.toNat := toNat_inj.symm
  rw [isValidSignatureEncoding, minimalR, minimalS, equals type, equals typeR, equals typeS]
  simp only [refused_or, third, fourth, size, first]
  constructor
  · rintro ⟨long, short, type, total, -, -, typeR, r0, r1, r2, typeS, s0, s1, s2, -⟩
    exact ⟨not_lt.mp long, not_lt.mp short, not_not.mp type, not_not.mp total, not_not.mp typeR,
      ⟨r0, r1, r2⟩, not_not.mp typeS, s0, s1, s2⟩
  · rintro ⟨long, short, type, total, typeR, ⟨r0, r1, r2⟩, typeS, s0, s1, s2⟩
    exact ⟨not_lt.mpr long, not_lt.mpr short, not_not.mpr type, not_not.mpr total, by omega,
      not_not.mpr rfl, not_not.mpr typeR, r0, r1, r2, not_not.mpr typeS, s0, s1, s2, trivial⟩

theorem exists_laidOut_of_isValid (valid : isValidSignatureEncoding sig = true) :
    ∃ type total typeR lenR r typeS lenS s nHashType,
      sig = laidOut type total typeR lenR r typeS lenS s nHashType ∧ r.length = lenR.toNat ∧
        s.length = lenS.toNat := by
  have checks := valid
  rw [isValidSignatureEncoding] at checks
  simp only [refused_or] at checks
  obtain ⟨-, -, -, -, -, size, -⟩ := checks
  obtain ⟨type, total, typeR, lenR, r, typeS, lenS, s, nHashType, shape, sizeR, sizeS⟩ :=
    exists_laidOut (not_not.mp size)
  refine ⟨type, total, typeR, lenR, r, typeS, lenS, s, nHashType, shape, ?_, ?_⟩
  · rw [sizeR, shape]
    rfl
  · rw [sizeS, ← sizeR, Nat.add_comm, show r.length + 5 = r.length + 4 + 1 from rfl, shape,
      getD_laidOut_behind]
    rfl

theorem derSignature_eq (r s : List UInt8) (nHashType : UInt8) :
    derSignature r s nHashType = laidOut 0x30 (ofNat (r.length + s.length + 4)) 0x02
      (ofNat r.length) r 0x02 (ofNat s.length) s nHashType := rfl

theorem isValid_iff_isDer (sig : Valtype) :
    isValidSignatureEncoding sig = true ↔ ∃ r s nHashType, IsDer sig r s nHashType := by
  have number {n : ℕ} (small : n < 256) : (ofNat n).toNat = n := UInt8.toNat_ofNat_of_lt small
  constructor
  · intro valid
    obtain ⟨type, total, typeR, lenR, r, typeS, lenS, s, nHashType, rfl, sizeR, sizeS⟩ :=
      exists_laidOut_of_isValid valid
    have size := length_laidOut type total typeR lenR typeS lenS nHashType r s
    obtain ⟨long, short, rfl, sum, rfl, minimalR, rfl, minimalS⟩ :=
      (isValid_laidOut type total typeR lenR typeS lenS nHashType sizeR sizeS).mp valid
    refine ⟨magnitude r, magnitude s, nHashType, by rwa [size], by rwa [size], r, s,
      isShortest_iff.mpr ⟨minimalR, rfl⟩, isShortest_iff.mpr ⟨minimalS, rfl⟩, ?_⟩
    rw [derSignature_eq, ← sum, sizeR, sizeS, ofNat_toNat, ofNat_toNat,
      ofNat_toNat]
  · rintro ⟨r, s, nHashType, long, short, first, second, shortestR, shortestS, rfl⟩
    rw [length_derSignature] at long short
    refine (isValid_laidOut _ _ _ _ _ _ _ (number (by omega)).symm (number (by omega)).symm).mpr
      ⟨long, short, rfl, number (by omega), rfl, (isShortest_iff.mp shortestR).1, rfl,
        (isShortest_iff.mp shortestS).1⟩

theorem IsDer.unique {r s otherR otherS : ℕ} {nHashType other : UInt8}
    (der : IsDer sig r s nHashType) (again : IsDer sig otherR otherS other) :
    r = otherR ∧ s = otherS ∧ nHashType = other := by
  obtain ⟨-, short, r1, s1, shortestR, shortestS, rfl⟩ := der
  obtain ⟨-, -, r2, s2, otherR, otherS, same⟩ := again
  have lengths := congrArg List.length same
  rw [length_derSignature] at short
  rw [length_derSignature, length_derSignature] at lengths
  have third : ofNat r1.length = ofNat r2.length := congrArg (List.getD · 3 0) same
  have sizes : r1.length = r2.length := by
    have numbers := congrArg UInt8.toNat third
    have small : r1.length < UInt8.size := by
      have : UInt8.size = 256 := rfl
      omega
    have otherSmall : r2.length < UInt8.size := by
      have : UInt8.size = 256 := rfl
      omega
    rwa [UInt8.toNat_ofNat_of_lt' small, UInt8.toNat_ofNat_of_lt' otherSmall] at numbers
  obtain ⟨rfl, rest⟩ := List.append_inj (congrArg (List.drop 4) same) sizes
  have behind : s1 ++ [nHashType] = s2 ++ [other] := congrArg (List.drop 2) rest
  obtain ⟨rfl, last⟩ := List.append_inj behind (by omega)
  refine ⟨?_, ?_, List.head_eq_of_cons_eq last⟩
  · exact_mod_cast shortestR.spells.symm.trans otherR.spells
  · exact_mod_cast shortestS.spells.symm.trans otherS.spells

/-- **Strict signatures are DER.** No read of `IsValidSignatureEncoding` is out of range on any
input. It accepts exactly the signatures of 9 to 73 bytes that are DER for two integers that are
not negative and a hash type, and these are unique. -/
theorem isValidSignatureEncoding_der (sig : Valtype) :
    readSignatureEncoding sig = .ok (isValidSignatureEncoding sig) ∧
      (isValidSignatureEncoding sig = true ↔ ∃ r s nHashType, IsDer sig r s nHashType) ∧
      ∀ r s nHashType otherR otherS other, IsDer sig r s nHashType →
        IsDer sig otherR otherS other → r = otherR ∧ s = otherS ∧ nHashType = other :=
  ⟨readSignatureEncoding_eq sig, isValid_iff_isDer sig,
    fun _ _ _ _ _ _ der again => der.unique again⟩

end DogeCash.Encoding
