import DogeCash.Script.SignatureEncoding
import DogeCash.Script.StackLimits

/-! # Script numbers

`CScriptNum::serialize` writes the bytes of the absolute value, the lowest first, with the sign in
the highest bit; a byte of its own has the sign where the absolute value takes that bit. The
encodings that the constructor accepts as minimal are the ones that `serialize` writes.
-/

namespace DogeCash

open Encoding
open UInt8 (toNat_inj toNat_ofNat')
open List (eq_nil_or_concat' length_append length_singleton)

theorem fromLittleEndian_concat (init : List UInt8) (last : UInt8) :
    fromLittleEndian (init ++ [last]) = fromLittleEndian init + 256 ^ init.length * last.toNat := by
  induction init with
  | nil => simp [fromLittleEndian]
  | cons byte init ih =>
    rw [List.cons_append, fromLittleEndian, ih, fromLittleEndian, List.length_cons, Nat.pow_succ']
    ring

theorem fromLittleEndian_lt (bytes : List UInt8) : fromLittleEndian bytes < 256 ^ bytes.length := by
  induction bytes with
  | nil => exact Nat.one_pos
  | cons byte bytes ih =>
    have small := byte.toNat_lt
    rw [fromLittleEndian, List.length_cons, Nat.pow_succ']
    omega

theorem and_lowBits (byte : UInt8) : byte &&& 0x7f = 0 ↔ byte.toNat % 128 = 0 := by
  rw [← toNat_inj, UInt8.toNat_and, show (0x7f : UInt8).toNat = 2 ^ 7 - 1 from rfl,
    Nat.and_two_pow_sub_one_eq_mod]
  rfl

theorem toNat_or_highBit {byte : UInt8} (clear : byte.toNat < 128) :
    (byte ||| 0x80).toNat = byte.toNat + 128 := by
  have sum := Nat.two_pow_add_eq_or_of_lt (i := 7) clear 1
  rw [UInt8.toNat_or, Nat.or_comm]
  exact sum.symm.trans (Nat.add_comm _ _)

namespace ScriptNum

variable {init : List UInt8} {last : UInt8} {value : Int}

theorem notMinimal_concat : notMinimal (init ++ [last]) = true ↔
    last.toNat % 128 = 0 ∧ ∀ second ∈ init.getLast?, second.toNat < 128 := by
  rw [notMinimal, List.reverse_append, List.reverse_singleton, List.singleton_append, ← and_lowBits]
  rcases eq_nil_or_concat' init with rfl | ⟨-, second, rfl⟩
  · simp
  · have high := and_highBit second
    simp only [List.reverse_append, List.reverse_singleton, List.singleton_append, Bool.and_eq_true,
      beq_iff_eq, List.getLast?_concat, Option.mem_some_iff, forall_eq']
    refine and_congr_right fun _ => ?_
    rw [← Nat.not_le, ← high, ne_eq, not_not]

theorem setVch_concat : setVch (init ++ [last]) =
    if 128 ≤ last.toNat then
      -((fromLittleEndian init + 256 ^ init.length * (last.toNat - 128) : ℕ) : Int)
    else (fromLittleEndian (init ++ [last]) : Int) := by
  have high := and_highBit last
  simp only [setVch, List.getLast?_concat, bne_iff_ne, high]
  split_ifs with sign
  · rw [fromLittleEndian_concat, length_append, length_singleton, Nat.add_sub_cancel]
    obtain ⟨rest, same⟩ := Nat.exists_eq_add_of_le sign
    rw [same, Nat.add_sub_cancel_left]
    push_cast
    ring
  · rfl

theorem absBytes_fromLittleEndian {bytes : List UInt8} {fuel : ℕ} (enough : bytes.length ≤ fuel)
    (shortest : ∀ last ∈ bytes.getLast?, last ≠ 0) :
    absBytes fuel (fromLittleEndian bytes) = bytes := by
  induction bytes generalizing fuel with
  | nil => cases fuel <;> rfl
  | cons byte bytes ih =>
    obtain ⟨fuel, rfl⟩ := Nat.exists_eq_add_of_le' (Nat.lt_of_lt_of_le (Nat.succ_pos _) enough)
    have small := byte.toNat_lt
    have rest : absBytes fuel (fromLittleEndian bytes) = bytes := by
      refine ih (Nat.le_of_succ_le_succ enough) fun last found => shortest last ?_
      rw [List.getLast?_cons, found]
      rfl
    have positive : byte.toNat + 256 * fromLittleEndian bytes ≠ 0 := by
      intro zero
      cases bytes with
      | nil => exact shortest byte rfl (toNat_inj.mp (by simpa [fromLittleEndian] using zero))
      | cons next others =>
        rw [show fromLittleEndian (next :: others) = 0 by omega] at rest
        cases fuel <;> cases rest
    have here : (byte.toNat + 256 * fromLittleEndian bytes) / 256 = fromLittleEndian bytes := by
      omega
    rw [fromLittleEndian, absBytes, if_neg positive, here, rest]
    congr 1
    apply toNat_inj.mp
    rw [toNat_ofNat']
    omega

theorem exists_absBytes {n fuel : ℕ} (small : n < 256 ^ fuel) :
    ∃ bytes : List UInt8, bytes.length ≤ fuel ∧ (∀ last ∈ bytes.getLast?, last ≠ 0) ∧
      fromLittleEndian bytes = n := by
  induction fuel generalizing n with
  | zero => exact ⟨[], Nat.le_refl 0, by simp, by rw [fromLittleEndian]; omega⟩
  | succ fuel ih =>
    rw [Nat.pow_succ'] at small
    obtain ⟨bytes, length, shortest, number⟩ := ih (Nat.div_lt_of_lt_mul small)
    by_cases zero : n = 0
    · exact ⟨[], Nat.zero_le _, by simp, zero.symm⟩
    · refine ⟨UInt8.ofNat n :: bytes, Nat.succ_le_succ length, fun last found => ?_, ?_⟩
      · rcases eq_nil_or_concat' bytes with rfl | ⟨front, top, rfl⟩
        · obtain rfl : UInt8.ofNat n = last := by simpa using found
          intro none
          have value := congrArg UInt8.toNat none
          rw [fromLittleEndian] at number
          rw [toNat_ofNat', show (0 : UInt8).toNat = 0 from rfl] at value
          omega
        · rw [← List.cons_append, List.getLast?_concat] at found
          exact shortest last (by rw [List.getLast?_concat]; exact found)
      · rw [fromLittleEndian, number, toNat_ofNat']
        omega

theorem serialize_of_bytes {n : ℕ} (bytes : absBytes 8 n = init ++ [last])
    (same : value.natAbs = n) :
    serialize value =
      if 128 ≤ last.toNat then init ++ [last] ++ [if value < 0 then 0x80 else 0]
      else if value < 0 then init ++ [last ||| 0x80]
      else init ++ [last] := by
  have high := and_highBit last
  simp only [serialize, same, bytes, List.getLast?_concat, bne_iff_ne, high, List.dropLast_concat]

theorem read_serialize (small : value.natAbs < 256 ^ 8) :
    notMinimal (serialize value) = false ∧ setVch (serialize value) = value := by
  obtain ⟨bytes, length, shortest, number⟩ := exists_absBytes small
  have written := absBytes_fromLittleEndian length shortest
  rw [number] at written
  rcases eq_nil_or_concat' bytes with rfl | ⟨init, last, rfl⟩
  · obtain rfl : value = 0 := Int.natAbs_eq_zero.mp number.symm
    exact ⟨rfl, rfl⟩
  · have nonzero : last.toNat ≠ 0 := fun zero =>
      shortest last (List.getLast?_concat ..) (toNat_inj.mp zero)
    rw [serialize_of_bytes written rfl, ← Bool.not_eq_true]
    split_ifs with high negative negative
    · rw [notMinimal_concat, setVch_concat, number]
      refine ⟨fun both => ?_, ?_⟩
      · have second := both.2 last (List.getLast?_concat ..)
        omega
      · simp only [show (0x80 : UInt8).toNat = 128 from rfl, le_refl, ↓reduceIte, Nat.sub_self,
          Nat.mul_zero, Nat.add_zero]
        omega
    · rw [notMinimal_concat, setVch_concat, fromLittleEndian_concat _ 0, number]
      refine ⟨fun both => ?_, ?_⟩
      · have second := both.2 last (List.getLast?_concat ..)
        omega
      · rw [show (0 : UInt8).toNat = 0 from rfl, Nat.mul_zero, Nat.add_zero, if_neg (by decide)]
        omega
    · rw [notMinimal_concat, setVch_concat, toNat_or_highBit (by omega),
        if_pos (Nat.le_add_left _ _), Nat.add_sub_cancel, ← fromLittleEndian_concat, number]
      exact ⟨fun both => absurd both.1 (by omega), by omega⟩
    · rw [notMinimal_concat, setVch_concat, if_neg high, number]
      exact ⟨fun both => absurd both.1 (by omega), by omega⟩

/-- **A minimal encoding is the one of its number.** -/
theorem serialize_setVch {vch : Valtype} (length : vch.length ≤ 8)
    (minimal : notMinimal vch = false) : serialize (setVch vch) = vch := by
  rcases eq_nil_or_concat' vch with rfl | ⟨init, last, rfl⟩
  · rfl
  · rw [← Bool.not_eq_true, notMinimal_concat] at minimal
    have low := last.toNat_lt
    rw [length_append, length_singleton] at length
    rw [setVch_concat]
    by_cases padded : last.toNat % 128 = 0
    · obtain ⟨second, found, high⟩ : ∃ second ∈ init.getLast?, 128 ≤ second.toNat := by
        by_contra none
        exact minimal ⟨padded, fun second found => by_contra fun high =>
          none ⟨second, found, Nat.le_of_not_lt high⟩⟩
      obtain ⟨front, rfl⟩ := List.getLast?_eq_some_iff.mp found
      have positive : 0 < fromLittleEndian (front ++ [second]) := by
        rw [fromLittleEndian_concat]
        have scaled := Nat.mul_pos (Nat.pow_pos (n := front.length) (show 0 < 256 by decide))
          (Nat.lt_of_lt_of_le (by decide) high)
        omega
      have bytes := @absBytes_fromLittleEndian (front ++ [second]) 8 (by omega)
        (by
          intro top same
          rw [List.getLast?_concat] at same
          cases same
          rintro rfl
          exact absurd high (by decide))
      split_ifs with sign
      · obtain rfl : last = 0x80 := toNat_inj.mp (show last.toNat = 128 by omega)
        rw [show (0x80 : UInt8).toNat - 128 = 0 from rfl, Nat.mul_zero, Nat.add_zero,
          serialize_of_bytes bytes (by rw [Int.natAbs_neg, Int.natAbs_natCast]), if_pos high,
          if_pos (by omega)]
      · obtain rfl : last = 0 := toNat_inj.mp (show last.toNat = 0 by omega)
        rw [fromLittleEndian_concat _ 0, show (0 : UInt8).toNat = 0 from rfl, Nat.mul_zero,
          Nat.add_zero, serialize_of_bytes bytes (Int.natAbs_natCast _), if_pos high,
          if_neg (by omega)]
    · have rest : (UInt8.ofNat (last.toNat % 128)).toNat = last.toNat % 128 := by
        rw [toNat_ofNat']
        omega
      have bytes := @absBytes_fromLittleEndian (init ++ [UInt8.ofNat (last.toNat % 128)]) 8
        (by rw [length_append, length_singleton]; omega)
        (by
          intro top same zero
          rw [List.getLast?_concat] at same
          cases same
          rw [zero] at rest
          exact padded rest.symm)
      rw [fromLittleEndian_concat, rest] at bytes
      split_ifs with sign
      · have magnitude : last.toNat % 128 = last.toNat - 128 := by omega
        have scaled := Nat.mul_pos (Nat.pow_pos (n := init.length) (show 0 < 256 by decide))
          (Nat.pos_of_ne_zero padded)
        rw [magnitude] at bytes scaled rest
        have signed : UInt8.ofNat (last.toNat - 128) ||| 0x80 = last := by
          apply toNat_inj.mp
          rw [toNat_or_highBit (by omega), rest]
          omega
        rw [serialize_of_bytes bytes (by rw [Int.natAbs_neg, Int.natAbs_natCast]),
          if_neg (by omega), if_pos (by omega), signed]
      · have whole : last.toNat % 128 = last.toNat := by omega
        rw [whole, UInt8.ofNat_toNat, ← fromLittleEndian_concat] at bytes
        rw [serialize_of_bytes bytes (Int.natAbs_natCast _), if_neg sign,
          if_neg (not_lt.mpr (Int.natCast_nonneg _))]

theorem natAbs_setVch_lt (vch : Valtype) : (setVch vch).natAbs < 256 ^ vch.length := by
  rcases eq_nil_or_concat' vch with rfl | ⟨init, last, rfl⟩
  · exact Nat.one_pos
  · have bound := fromLittleEndian_lt (init ++ [last])
    rw [setVch_concat]
    split_ifs
    · have less := Nat.mul_le_mul_left (256 ^ init.length) (Nat.sub_le last.toNat 128)
      rw [fromLittleEndian_concat] at bound
      omega
    · rwa [Int.natAbs_natCast]

theorem length_serialize {value : Int} (small : value.natAbs < 2 ^ 63) :
    (serialize value).length ≤ 8 := by
  obtain ⟨bytes, length, shortest, number⟩ :=
    exists_absBytes (Nat.lt_trans small (show 2 ^ 63 < 256 ^ 8 by decide))
  have written := absBytes_fromLittleEndian length shortest
  rw [number] at written
  rcases eq_nil_or_concat' bytes with rfl | ⟨init, last, rfl⟩
  · obtain rfl : value = 0 := Int.natAbs_eq_zero.mp number.symm
    exact Nat.zero_le 8
  · rw [serialize_of_bytes written rfl]
    simp only [length_append, length_singleton] at length
    by_cases high : 128 ≤ last.toNat
    · rw [if_pos high]
      by_contra long
      simp only [length_append, length_singleton] at long
      rw [fromLittleEndian_concat, show init.length = 7 by omega] at number
      omega
    · split_ifs <;> simpa only [length_append, length_singleton] using length

theorem parse_minimal {vch : Valtype} {nMaxNumSize : ℕ} (sized : vch.length ≤ nMaxNumSize)
    (minimal : notMinimal vch = false) : parse vch true nMaxNumSize = .ok (setVch vch) := by
  rw [parse, if_neg (Nat.not_lt.mpr sized), minimal]
  rfl

/-- **Script numbers.** Every number but the least one is read back from what is written of it, and
of the strings of at most eight bytes exactly the ones that are written are accepted. -/
theorem scriptNumbers :
    (∀ v : Int64, v ≠ Int64.minValue → (serialize v.toInt).length ≤ 8 ∧
      ∀ nMaxNumSize, (serialize v.toInt).length ≤ nMaxNumSize →
        parse (serialize v.toInt) true nMaxNumSize = .ok v.toInt) ∧
    ∀ vch : Valtype, vch.length ≤ 8 → ∀ nMaxNumSize, vch.length ≤ nMaxNumSize →
      ((∃ value, parse vch true nMaxNumSize = .ok value) ↔ vch = serialize (setVch vch)) := by
  refine ⟨fun v least => ?_, fun vch short nMaxNumSize sized => ?_⟩
  · have low := v.le_toInt
    have high := v.toInt_lt
    have other : v.toInt ≠ -2 ^ 63 := fun same => least (Int64.toInt_inj.mp same)
    have small : v.toInt.natAbs < 2 ^ 63 := by omega
    obtain ⟨minimal, value⟩ := read_serialize (Nat.lt_trans small (show 2 ^ 63 < 256 ^ 8 by decide))
    refine ⟨length_serialize small, fun nMaxNumSize sized => ?_⟩
    rw [parse_minimal sized minimal, value]
  · constructor
    · intro accepted
      obtain ⟨value, accepted⟩ := accepted
      refine (serialize_setVch short ?_).symm
      rw [parse, if_neg (Nat.not_lt.mpr sized), Bool.true_and] at accepted
      split at accepted
      · cases accepted
      · exact Bool.eq_false_of_not_eq_true (by assumption)
    · intro written
      have small := Nat.lt_of_lt_of_le (natAbs_setVch_lt vch)
        (Nat.pow_le_pow_right (by decide) short)
      have minimal := (read_serialize small).1
      rw [← written] at minimal
      exact ⟨_, parse_minimal sized minimal⟩

end ScriptNum

end DogeCash
