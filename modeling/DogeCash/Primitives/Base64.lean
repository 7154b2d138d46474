import Mathlib.Algebra.Group.Nat.Defs
import Mathlib.Data.List.Basic

/-! # Base64

`EncodeBase64` and `DecodeBase64` are state machines that hold some left-over bits of the last
byte or character. The decoder stops at the first character outside the alphabet. Behind the
padding that the state calls for it refuses a character of the alphabet, and nothing else: what
comes after the data may be anything that begins with another character.
-/

namespace DogeCash

open List (append_assoc append_nil cons_append forall_mem_cons map_cons nil_append)
open UInt8 (ofNat ofNat_toNat)

def pbase64 : List UInt8 :=
  ['A', 'B', 'C', 'D', 'E', 'F', 'G', 'H', 'I', 'J', 'K', 'L', 'M', 'N', 'O', 'P', 'Q', 'R', 'S',
    'T', 'U', 'V', 'W', 'X', 'Y', 'Z', 'a', 'b', 'c', 'd', 'e', 'f', 'g', 'h', 'i', 'j', 'k', 'l',
    'm', 'n', 'o', 'p', 'q', 'r', 's', 't', 'u', 'v', 'w', 'x', 'y', 'z', '0', '1', '2', '3', '4',
    '5', '6', '7', '8', '9', '+', '/'].map fun c => ofNat c.toNat

/-- `decode64_table` -/
def decode64Table : List Int :=
  [-1, -1, -1, -1, -1, -1, -1, -1, -1, -1, -1, -1, -1, -1, -1, -1, -1, -1, -1, -1,
    -1, -1, -1, -1, -1, -1, -1, -1, -1, -1, -1, -1, -1, -1, -1, -1, -1, -1, -1, -1,
    -1, -1, -1, 62, -1, -1, -1, 63, 52, 53, 54, 55, 56, 57, 58, 59, 60, 61, -1, -1,
    -1, -1, -1, -1, -1, 0, 1, 2, 3, 4, 5, 6, 7, 8, 9, 10, 11, 12, 13, 14,
    15, 16, 17, 18, 19, 20, 21, 22, 23, 24, 25, -1, -1, -1, -1, -1, -1, 26, 27, 28,
    29, 30, 31, 32, 33, 34, 35, 36, 37, 38, 39, 40, 41, 42, 43, 44, 45, 46, 47, 48,
    49, 50, 51, -1, -1, -1, -1, -1, -1, -1, -1, -1, -1, -1, -1, -1, -1, -1, -1, -1,
    -1, -1, -1, -1, -1, -1, -1, -1, -1, -1, -1, -1, -1, -1, -1, -1, -1, -1, -1, -1,
    -1, -1, -1, -1, -1, -1, -1, -1, -1, -1, -1, -1, -1, -1, -1, -1, -1, -1, -1, -1,
    -1, -1, -1, -1, -1, -1, -1, -1, -1, -1, -1, -1, -1, -1, -1, -1, -1, -1, -1, -1,
    -1, -1, -1, -1, -1, -1, -1, -1, -1, -1, -1, -1, -1, -1, -1, -1, -1, -1, -1, -1,
    -1, -1, -1, -1, -1, -1, -1, -1, -1, -1, -1, -1, -1, -1, -1, -1, -1, -1, -1, -1,
    -1, -1, -1, -1, -1, -1, -1, -1, -1, -1, -1, -1, -1, -1, -1, -1]

def base64Char (digit : ℕ) : UInt8 := pbase64.getD digit 0

/-- The character `'='`. -/
def base64Pad : UInt8 := ofNat '='.toNat

/-- `decode64_table` at a character. -/
def decode64 (c : UInt8) : Int := decode64Table.getD c.toNat (-1)

/-- The variables of the loop in `EncodeBase64`. -/
structure Encode64 where
  mode : ℕ
  left : ℕ
  strRet : List UInt8

/-- One round of the loop in `EncodeBase64`. -/
def encode64Step (state : Encode64) (byte : UInt8) : Encode64 :=
  let enc := byte.toNat
  match state.mode with
  | 0 => ⟨1, (enc &&& 3) <<< 4, state.strRet ++ [base64Char (enc >>> 2)]⟩
  | 1 => ⟨2, (enc &&& 15) <<< 2, state.strRet ++ [base64Char (state.left ||| enc >>> 4)]⟩
  | 2 => ⟨0, state.left, state.strRet ++
      [base64Char (state.left ||| enc >>> 6), base64Char (enc &&& 63)]⟩
  | _ => state

def encodeBase64 (v : List UInt8) : List UInt8 :=
  let state := v.foldl encode64Step ⟨0, 0, []⟩
  if state.mode ≠ 0 then
    state.strRet ++ [base64Char state.left, base64Pad] ++
      if state.mode = 1 then [base64Pad] else []
  else state.strRet

/-- The variables of the loop in `DecodeBase64`. -/
structure Decode64 where
  mode : ℕ
  left : ℕ
  vchRet : List UInt8

/-- One round of the loop in `DecodeBase64`, for a character of the alphabet. -/
def decode64Step (state : Decode64) (dec : ℕ) : Decode64 :=
  match state.mode with
  | 0 => ⟨1, dec, state.vchRet⟩
  | 1 => ⟨2, dec &&& 15, state.vchRet ++ [ofNat (state.left <<< 2 ||| dec >>> 4)]⟩
  | 2 => ⟨3, dec &&& 3, state.vchRet ++ [ofNat (state.left <<< 4 ||| dec >>> 2)]⟩
  | 3 => ⟨0, state.left, state.vchRet ++ [ofNat (state.left <<< 6 ||| dec)]⟩
  | _ => state

/-- The loop in `DecodeBase64`: what is left of the string, and the variables. The string ends
with a zero byte, which is not in the alphabet. -/
def decode64Loop : List UInt8 → Decode64 → List UInt8 × Decode64
  | [], state => ([], state)
  | c :: p, state =>
    let dec := decode64 c
    if dec = -1 then (c :: p, state) else decode64Loop p (decode64Step state dec.toNat)

def charAt (p : List UInt8) (place : ℕ) : UInt8 := p.getD place 0

/-- `DecodeBase64`: the result and `*pfInvalid`. -/
def decodeBase64 (p : List UInt8) : List UInt8 × Bool :=
  let (p, state) := decode64Loop p ⟨0, 0, []⟩
  (state.vchRet,
    match state.mode with
    | 1 => true
    | 2 => state.left ≠ 0 || charAt p 0 ≠ base64Pad || charAt p 1 ≠ base64Pad ||
        decode64 (charAt p 2) ≠ -1
    | 3 => state.left ≠ 0 || charAt p 0 ≠ base64Pad || decode64 (charAt p 1) ≠ -1
    | _ => false)

/-! ## The alphabet -/

theorem decode64_base64Char : ∀ digit < 64, decode64 (base64Char digit) = digit := by decide

def IsForeign (c : UInt8) : Prop := decode64 c = -1

instance (c : UInt8) : Decidable (IsForeign c) := inferInstanceAs (Decidable (_ = _))

theorem isForeign_pad : IsForeign base64Pad := by decide

theorem isForeign_zero : IsForeign 0 := by decide

theorem base64Char_of_not_foreign : ∀ n < 256, decode64 (ofNat n) ≠ -1 →
    (decode64 (ofNat n)).toNat < 64 ∧
      base64Char (decode64 (ofNat n)).toNat = ofNat n := by
  decide +kernel

theorem exists_digit {c : UInt8} (inside : ¬IsForeign c) : ∃ digit < 64, base64Char digit = c := by
  have known := base64Char_of_not_foreign c.toNat c.toNat_lt
  rw [ofNat_toNat] at known
  exact ⟨_, known inside⟩

/-- What may follow the data: nothing, or something that begins with a character outside the
alphabet. -/
def EndsData (p : List UInt8) : Prop := IsForeign (charAt p 0)

theorem exists_digits (p : List UInt8) :
    ∃ (digits : List ℕ) (rest : List UInt8), p = digits.map base64Char ++ rest ∧
      (∀ digit ∈ digits, digit < 64) ∧ EndsData rest := by
  induction p with
  | nil => exact ⟨[], [], rfl, nofun, isForeign_zero⟩
  | cons c p ih =>
    by_cases foreign : IsForeign c
    · exact ⟨[], c :: p, rfl, nofun, foreign⟩
    · obtain ⟨digits, rest, rfl, proper, ends⟩ := ih
      obtain ⟨digit, small, rfl⟩ := exists_digit foreign
      exact ⟨digit :: digits, rest, rfl, forall_mem_cons.mpr ⟨small, proper⟩, ends⟩

/-! ## The rounds in numbers -/

theorem shiftLeft_or {low i : ℕ} (small : low < 2 ^ i) (high : ℕ) :
    high <<< i ||| low = high * 2 ^ i + low := by
  rw [← Nat.shiftLeft_add_eq_or_of_lt small, Nat.shiftLeft_eq]

theorem mul_or {low i : ℕ} (small : low < 2 ^ i) (high : ℕ) :
    high * 2 ^ i ||| low = high * 2 ^ i + low := by
  rw [← Nat.shiftLeft_eq, shiftLeft_or small, Nat.shiftLeft_eq]

section

variable (left high : ℕ) (strRet vchRet : List UInt8) (byte : UInt8)

theorem encode64Step_zero : encode64Step ⟨0, left, strRet⟩ byte =
    ⟨1, byte.toNat % 4 * 16, strRet ++ [base64Char (byte.toNat / 4)]⟩ := by
  have low : byte.toNat &&& 3 = byte.toNat % 4 := Nat.and_two_pow_sub_one_eq_mod _ 2
  have step : encode64Step ⟨0, left, strRet⟩ byte =
      ⟨1, (byte.toNat &&& 3) <<< 4, strRet ++ [base64Char (byte.toNat >>> 2)]⟩ := rfl
  rw [step, low, Nat.shiftRight_eq_div_pow, Nat.shiftLeft_eq]

theorem encode64Step_one : encode64Step ⟨1, high * 16, strRet⟩ byte =
    ⟨2, byte.toNat % 16 * 4, strRet ++ [base64Char (high * 16 + byte.toNat / 16)]⟩ := by
  have low : byte.toNat &&& 15 = byte.toNat % 16 := Nat.and_two_pow_sub_one_eq_mod _ 4
  have small : byte.toNat / 16 < 2 ^ 4 := Nat.div_lt_of_lt_mul byte.toNat_lt
  have joined : high * 16 ||| byte.toNat / 2 ^ 4 = high * 16 + byte.toNat / 16 := mul_or small high
  have step : encode64Step ⟨1, high * 16, strRet⟩ byte =
      ⟨2, (byte.toNat &&& 15) <<< 2, strRet ++ [base64Char (high * 16 ||| byte.toNat >>> 4)]⟩ := rfl
  rw [step, low, Nat.shiftRight_eq_div_pow, Nat.shiftLeft_eq, joined]

theorem encode64Step_two : encode64Step ⟨2, high * 4, strRet⟩ byte =
    ⟨0, high * 4, strRet ++
      [base64Char (high * 4 + byte.toNat / 64), base64Char (byte.toNat % 64)]⟩ := by
  have low : byte.toNat &&& 63 = byte.toNat % 64 := Nat.and_two_pow_sub_one_eq_mod _ 6
  have small : byte.toNat / 64 < 2 ^ 2 := Nat.div_lt_of_lt_mul byte.toNat_lt
  have joined : high * 4 ||| byte.toNat / 2 ^ 6 = high * 4 + byte.toNat / 64 := mul_or small high
  have step : encode64Step ⟨2, high * 4, strRet⟩ byte =
      ⟨0, high * 4, strRet ++
        [base64Char (high * 4 ||| byte.toNat >>> 6), base64Char (byte.toNat &&& 63)]⟩ := rfl
  rw [step, low, Nat.shiftRight_eq_div_pow, joined]

variable {digit : ℕ} (proper : digit < 64)

include proper

theorem decode64Step_one : decode64Step ⟨1, left, vchRet⟩ digit =
    ⟨2, digit % 16, vchRet ++ [ofNat (left * 4 + digit / 16)]⟩ := by
  have low : digit &&& 15 = digit % 16 := Nat.and_two_pow_sub_one_eq_mod _ 4
  have small : digit / 2 ^ 4 < 2 ^ 2 := Nat.div_lt_of_lt_mul proper
  have high : left <<< 2 ||| digit >>> 4 = left * 4 + digit / 16 :=
    (congrArg (left <<< 2 ||| ·) (Nat.shiftRight_eq_div_pow digit 4)).trans (shiftLeft_or small left)
  have step : decode64Step ⟨1, left, vchRet⟩ digit =
      ⟨2, digit &&& 15, vchRet ++ [ofNat (left <<< 2 ||| digit >>> 4)]⟩ := rfl
  rw [step, low, high]

theorem decode64Step_two : decode64Step ⟨2, left, vchRet⟩ digit =
    ⟨3, digit % 4, vchRet ++ [ofNat (left * 16 + digit / 4)]⟩ := by
  have low : digit &&& 3 = digit % 4 := Nat.and_two_pow_sub_one_eq_mod _ 2
  have small : digit / 2 ^ 2 < 2 ^ 4 := Nat.div_lt_of_lt_mul proper
  have high : left <<< 4 ||| digit >>> 2 = left * 16 + digit / 4 :=
    (congrArg (left <<< 4 ||| ·) (Nat.shiftRight_eq_div_pow digit 2)).trans (shiftLeft_or small left)
  have step : decode64Step ⟨2, left, vchRet⟩ digit =
      ⟨3, digit &&& 3, vchRet ++ [ofNat (left <<< 4 ||| digit >>> 2)]⟩ := rfl
  rw [step, low, high]

theorem decode64Step_three : decode64Step ⟨3, left, vchRet⟩ digit =
    ⟨0, left, vchRet ++ [ofNat (left * 64 + digit)]⟩ := by
  have high : left <<< 6 ||| digit = left * 64 + digit := shiftLeft_or (i := 6) proper left
  have step : decode64Step ⟨3, left, vchRet⟩ digit =
      ⟨0, left, vchRet ++ [ofNat (left <<< 6 ||| digit)]⟩ := rfl
  rw [step, high]

theorem decode64Loop_char (p : List UInt8) (state : Decode64) :
    decode64Loop (base64Char digit :: p) state = decode64Loop p (decode64Step state digit) := by
  have value := decode64_base64Char digit proper
  rw [decode64Loop, value]
  exact if_neg (by omega)

end

theorem decode64Loop_of_ends {p : List UInt8} (ends : EndsData p) (state : Decode64) :
    decode64Loop p state = (p, state) := by
  cases p with
  | nil => rfl
  | cons c p => exact if_pos ends

/-! ## Groups of bytes and digits -/

/-- The digits for some bytes, four for every three bytes. -/
def base64Digits : List UInt8 → List ℕ
  | [] => []
  | [a] => [a.toNat / 4, a.toNat % 4 * 16]
  | [a, b] => [a.toNat / 4, a.toNat % 4 * 16 + b.toNat / 16, b.toNat % 16 * 4]
  | a :: b :: c :: rest =>
    a.toNat / 4 :: (a.toNat % 4 * 16 + b.toNat / 16) :: (b.toNat % 16 * 4 + c.toNat / 64) ::
      c.toNat % 64 :: base64Digits rest

def base64Padding (length : ℕ) : List UInt8 :=
  if length % 3 = 1 then [base64Pad, base64Pad] else if length % 3 = 2 then [base64Pad] else []

theorem base64Padding_add_three (length : ℕ) :
    base64Padding (length + 3) = base64Padding length := by
  rw [base64Padding, Nat.add_mod_right, base64Padding]

def base64Bytes : List ℕ → List UInt8
  | [] | [_] => []
  | [a, b] => [ofNat (a * 4 + b / 16)]
  | [a, b, c] => [ofNat (a * 4 + b / 16), ofNat (b % 16 * 16 + c / 4)]
  | a :: b :: c :: d :: rest =>
    ofNat (a * 4 + b / 16) :: ofNat (b % 16 * 16 + c / 4) ::
      ofNat (c % 4 * 64 + d) :: base64Bytes rest

/-- The bits that some digits leave over. -/
def base64Left : List ℕ → ℕ
  | [] => 0
  | [a] => a
  | [_, b] => b % 16
  | [_, _, c] => c % 4
  | _ :: _ :: _ :: _ :: rest => base64Left rest

theorem encodeBase64_eq (v : List UInt8) :
    encodeBase64 v = (base64Digits v).map base64Char ++ base64Padding v.length := by
  have general : ∀ (left : ℕ) (strRet : List UInt8),
      let state := v.foldl encode64Step ⟨0, left, strRet⟩
      (if state.mode ≠ 0 then
        state.strRet ++ [base64Char state.left, base64Pad] ++
          if state.mode = 1 then [base64Pad] else []
      else state.strRet) =
        strRet ++ ((base64Digits v).map base64Char ++ base64Padding v.length) := by
    fun_induction base64Digits v with
    | case1 => intro left strRet; simp [base64Padding]
    | case2 a => intro left strRet; simp [encode64Step_zero, base64Padding]
    | case3 a b =>
      intro left strRet
      simp [encode64Step_zero, encode64Step_one, base64Padding]
    | case4 a b c rest ih =>
      intro left strRet
      have same : base64Padding (a :: b :: c :: rest).length = base64Padding rest.length :=
        base64Padding_add_three rest.length
      simp only [List.foldl_cons, encode64Step_zero, encode64Step_one, encode64Step_two, ih, same]
      simp
  exact (general 0 []).trans (nil_append _)

variable {digits : List ℕ} {rest : List UInt8}

theorem decode64Loop_digits (proper : ∀ digit ∈ digits, digit < 64) (ends : EndsData rest)
    (left : ℕ) (vchRet : List UInt8) :
    ∃ spare, decode64Loop (digits.map base64Char ++ rest) ⟨0, left, vchRet⟩ =
        (rest, ⟨digits.length % 4, spare, vchRet ++ base64Bytes digits⟩) ∧
      (digits.length % 4 ≠ 0 → spare = base64Left digits) := by
  have zero (left digit : ℕ) (vchRet : List UInt8) :
      decode64Step ⟨0, left, vchRet⟩ digit = ⟨1, digit, vchRet⟩ := rfl
  fun_induction base64Bytes digits generalizing left vchRet with
  | case1 =>
    refine ⟨left, ?_, fun more => absurd rfl more⟩
    rw [append_nil]
    exact decode64Loop_of_ends ends _
  | case2 a =>
    simp only [forall_mem_cons] at proper
    refine ⟨a, ?_, fun _ => rfl⟩
    rw [List.map_singleton, cons_append, decode64Loop_char proper.1, zero,
      nil_append, decode64Loop_of_ends ends, append_nil]
    rfl
  | case3 a b =>
    simp only [forall_mem_cons] at proper
    refine ⟨b % 16, ?_, fun _ => rfl⟩
    rw [map_cons, List.map_singleton, cons_append, cons_append,
      decode64Loop_char proper.1, zero, decode64Loop_char proper.2.1,
      decode64Step_one _ _ proper.2.1, nil_append, decode64Loop_of_ends ends]
    rfl
  | case4 a b c =>
    simp only [forall_mem_cons] at proper
    obtain ⟨ha, hb, hc, -⟩ := proper
    refine ⟨c % 4, ?_, fun _ => rfl⟩
    simp only [map_cons, List.map_nil, cons_append, nil_append, decode64Loop_char ha,
      decode64Loop_char hb, decode64Loop_char hc, zero, decode64Step_one _ _ hb,
      decode64Step_two _ _ hc, decode64Loop_of_ends ends, append_assoc]
    rfl
  | case5 a b c d digits ih =>
    simp only [forall_mem_cons] at proper
    obtain ⟨ha, hb, hc, hd, others⟩ := proper
    obtain ⟨spare, loop, kept⟩ := ih others (c % 4) (vchRet ++ [ofNat (a * 4 + b / 16)] ++
      [ofNat (b % 16 * 16 + c / 4)] ++ [ofNat (c % 4 * 64 + d)])
    have length : (a :: b :: c :: d :: digits).length % 4 = digits.length % 4 :=
      Nat.add_mod_right digits.length 4
    rw [length]
    refine ⟨spare, ?_, kept⟩
    simp only [map_cons, cons_append, decode64Loop_char ha, decode64Loop_char hb,
      decode64Loop_char hc, decode64Loop_char hd, zero, decode64Step_one _ _ hb,
      decode64Step_two _ _ hc, decode64Step_three _ _ hd, loop]
    simp

/-! ## Bytes and digits -/

theorem base64Digits_proper (v : List UInt8) : ∀ digit ∈ base64Digits v, digit < 64 := by
  fun_induction base64Digits v with
  | case1 => simp
  | case2 a =>
    have := a.toNat_lt
    simp only [forall_mem_cons]
    exact ⟨by omega, by omega, by simp⟩
  | case3 a b =>
    have := a.toNat_lt
    have := b.toNat_lt
    simp only [forall_mem_cons]
    exact ⟨by omega, by omega, by omega, by simp⟩
  | case4 a b c rest ih =>
    have := a.toNat_lt
    have := b.toNat_lt
    have := c.toNat_lt
    simp only [forall_mem_cons]
    exact ⟨by omega, by omega, by omega, by omega, ih⟩

theorem base64Bytes_base64Digits (v : List UInt8) :
    base64Bytes (base64Digits v) = v ∧ base64Left (base64Digits v) = 0 ∧
      ((base64Digits v).length % 4 = 0 ∧ v.length % 3 = 0 ∨
        (base64Digits v).length % 4 = 2 ∧ v.length % 3 = 1 ∨
        (base64Digits v).length % 4 = 3 ∧ v.length % 3 = 2) := by
  fun_induction base64Digits v with
  | case1 => exact ⟨rfl, rfl, Or.inl ⟨rfl, rfl⟩⟩
  | case2 a =>
    have first : a.toNat / 4 * 4 + a.toNat % 4 * 16 / 16 = a.toNat := by omega
    refine ⟨?_, Nat.mul_mod_left _ _, Or.inr (Or.inl ⟨rfl, rfl⟩)⟩
    rw [base64Bytes, first, ofNat_toNat]
  | case3 a b =>
    have := b.toNat_lt
    have first : a.toNat / 4 * 4 + (a.toNat % 4 * 16 + b.toNat / 16) / 16 = a.toNat := by omega
    have second : (a.toNat % 4 * 16 + b.toNat / 16) % 16 * 16 + b.toNat % 16 * 4 / 4 =
        b.toNat := by omega
    refine ⟨?_, Nat.mul_mod_left _ _, Or.inr (Or.inr ⟨rfl, rfl⟩)⟩
    rw [base64Bytes, first, second, ofNat_toNat, ofNat_toNat]
  | case4 a b c rest ih =>
    obtain ⟨same, spare, lengths⟩ := ih
    have := b.toNat_lt
    have := c.toNat_lt
    have first : a.toNat / 4 * 4 + (a.toNat % 4 * 16 + b.toNat / 16) / 16 = a.toNat := by omega
    have second : (a.toNat % 4 * 16 + b.toNat / 16) % 16 * 16 +
        (b.toNat % 16 * 4 + c.toNat / 64) / 4 = b.toNat := by omega
    have third : (b.toNat % 16 * 4 + c.toNat / 64) % 4 * 64 + c.toNat % 64 = c.toNat := by omega
    refine ⟨?_, spare, ?_⟩
    · rw [base64Bytes, first, second, third, same]
      simp
    · simpa only [base64Digits, List.length_cons, Nat.add_assoc, Nat.reduceAdd,
        Nat.add_mod_right] using lengths

theorem base64Digits_base64Bytes (proper : ∀ digit ∈ digits, digit < 64)
    (spare : digits.length % 4 ≠ 0 → base64Left digits = 0) (whole : digits.length % 4 ≠ 1) :
    base64Digits (base64Bytes digits) = digits := by
  have byte {n : ℕ} (small : n < 256) : (ofNat n).toNat = n := UInt8.toNat_ofNat_of_lt small
  fun_induction base64Bytes digits with
  | case1 => rfl
  | case2 a => exact absurd rfl whole
  | case3 a b =>
    simp only [forall_mem_cons] at proper
    have clear : b % 16 = 0 := spare (Nat.succ_ne_zero 1)
    rw [base64Digits, byte (by omega)]
    congr 1
    · omega
    · congr 1
      omega
  | case4 a b c =>
    simp only [forall_mem_cons] at proper
    have clear : c % 4 = 0 := spare (Nat.succ_ne_zero 2)
    rw [base64Digits, byte (by omega), byte (by omega)]
    congr 1
    · omega
    · congr 1
      · omega
      · congr 1
        omega
  | case5 a b c d digits ih =>
    simp only [forall_mem_cons] at proper
    obtain ⟨ha, hb, hc, hd, others⟩ := proper
    have length : (a :: b :: c :: d :: digits).length % 4 = digits.length % 4 :=
      Nat.add_mod_right digits.length 4
    rw [length] at spare whole
    rw [base64Digits, byte (by omega), byte (by omega), byte (by omega), ih others spare whole]
    congr 1
    · omega
    · congr 1
      · omega
      · congr 1
        · omega
        · congr 1
          omega

/-! ## What is accepted -/

def modePadding (mode : ℕ) : List UInt8 :=
  if mode = 2 then [base64Pad, base64Pad] else if mode = 3 then [base64Pad] else []

theorem padded_once :
    charAt rest 0 = base64Pad ∧ IsForeign (charAt rest 1) ↔
      ∃ tail, rest = [base64Pad] ++ tail ∧ EndsData tail := by
  constructor
  · intro found
    obtain ⟨first, ends⟩ := found
    cases rest with
    | nil => exact absurd first (by decide)
    | cons c tail =>
      obtain rfl : c = base64Pad := first
      exact ⟨tail, rfl, ends⟩
  · intro found
    obtain ⟨tail, rfl, ends⟩ := found
    exact ⟨rfl, ends⟩

theorem padded_twice :
    charAt rest 0 = base64Pad ∧ charAt rest 1 = base64Pad ∧ IsForeign (charAt rest 2) ↔
      ∃ tail, rest = [base64Pad, base64Pad] ++ tail ∧ EndsData tail := by
  constructor
  · intro found
    obtain ⟨first, others⟩ := found
    cases rest with
    | nil => exact absurd first (by decide)
    | cons c rest =>
      obtain rfl : c = base64Pad := first
      obtain ⟨tail, rfl, ends⟩ := padded_once.mp others
      exact ⟨tail, rfl, ends⟩
  · intro found
    obtain ⟨tail, rfl, ends⟩ := found
    exact ⟨rfl, rfl, ends⟩

theorem decodeBase64_digits (proper : ∀ digit ∈ digits, digit < 64) (ends : EndsData rest) :
    (decodeBase64 (digits.map base64Char ++ rest)).1 = base64Bytes digits ∧
      ((decodeBase64 (digits.map base64Char ++ rest)).2 = false ↔
        digits.length % 4 ≠ 1 ∧ (digits.length % 4 ≠ 0 → base64Left digits = 0) ∧
          ∃ tail, rest = modePadding (digits.length % 4) ++ tail ∧ EndsData tail) := by
  obtain ⟨spare, loop, kept⟩ := decode64Loop_digits proper ends 0 []
  rw [decodeBase64, loop]
  refine ⟨rfl, ?_⟩
  have cases : digits.length % 4 = 0 ∨ digits.length % 4 = 1 ∨ digits.length % 4 = 2 ∨
      digits.length % 4 = 3 := by omega
  rcases cases with mode | mode | mode | mode
  · rw [mode]
    exact iff_of_true rfl ⟨by decide, fun more => absurd rfl more, rest, rfl, ends⟩
  · rw [mode]
    exact iff_of_false Bool.false_ne_true.symm fun accepted => accepted.1 rfl
  · have same := kept (by rw [mode]; decide)
    rw [mode, same]
    have padding : modePadding 2 = [base64Pad, base64Pad] := rfl
    rw [padding, ← padded_twice, IsForeign]
    simp [and_assoc]
  · have same := kept (by rw [mode]; decide)
    rw [mode, same]
    have padding : modePadding 3 = [base64Pad] := rfl
    rw [padding, ← padded_once, IsForeign]
    simp [and_assoc]

/-- The decoder returns a result and leaves `fInvalid` false exactly if the string is the encoding of
the result, followed by what ends the data. -/
theorem decodeBase64_iff (s v : List UInt8) :
    decodeBase64 s = (v, false) ↔ ∃ tail, s = encodeBase64 v ++ tail ∧ EndsData tail := by
  constructor
  · intro decoded
    obtain ⟨digits, rest, rfl, proper, ends⟩ := exists_digits s
    obtain ⟨result, verdict⟩ := decodeBase64_digits proper ends
    rw [decoded] at result verdict
    obtain ⟨whole, spare, tail, rfl, foreign⟩ := verdict.mp rfl
    have back := base64Digits_base64Bytes proper spare whole
    obtain ⟨-, -, lengths⟩ := base64Bytes_base64Digits (base64Bytes digits)
    rw [back] at lengths
    refine ⟨tail, ?_, foreign⟩
    obtain rfl : v = base64Bytes digits := result
    rw [encodeBase64_eq, back, append_assoc, modePadding, base64Padding]
    rcases lengths with ⟨mode, count⟩ | ⟨mode, count⟩ | ⟨mode, count⟩
    all_goals
      rw [mode, count]
      rfl
  · intro found
    obtain ⟨tail, rfl, foreign⟩ := found
    obtain ⟨bytes, spare, lengths⟩ := base64Bytes_base64Digits v
    have ends : EndsData (base64Padding v.length ++ tail) := by
      rw [base64Padding]
      split_ifs
      · exact isForeign_pad
      · exact isForeign_pad
      · exact foreign
    obtain ⟨result, verdict⟩ := decodeBase64_digits (base64Digits_proper v) ends
    rw [encodeBase64_eq, append_assoc]
    refine Prod.ext (result.trans bytes) (verdict.mpr ⟨by omega, fun _ => spare, tail, ?_, foreign⟩)
    rw [modePadding, base64Padding]
    rcases lengths with ⟨mode, count⟩ | ⟨mode, count⟩ | ⟨mode, count⟩
    all_goals
      rw [mode, count]
      rfl

/-- **What the decoder accepts.** What `EncodeBase64` returns is decoded to the bytes, with
`fInvalid` false. And a string is accepted with a result exactly if it is the encoding of the
result, followed by nothing or by something that begins with a character outside the alphabet. -/
theorem decodeBase64_accepts :
    (∀ v, decodeBase64 (encodeBase64 v) = (v, false)) ∧
      ∀ s v, decodeBase64 s = (v, false) ↔ ∃ tail, s = encodeBase64 v ++ tail ∧ EndsData tail := by
  refine ⟨fun v => ?_, decodeBase64_iff⟩
  exact (decodeBase64_iff _ v).mpr ⟨[], (append_nil _).symm, isForeign_zero⟩

/-- An exclamation mark is accepted as the encoding of nothing. -/
theorem decodeBase64_foreign : ∃ s v, decodeBase64 s = (v, false) ∧ s ≠ encodeBase64 v :=
  ⟨[ofNat '!'.toNat], [], by decide, by decide⟩

end DogeCash
