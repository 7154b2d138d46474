import DogeCash.Foundation.Checked
import DogeCash.Foundation.Radix
import DogeCash.Primitives.Serialize
import Mathlib.Data.List.GetD
import Mathlib.Data.List.TakeWhile

/-! # Base58

`EncodeBase58` and `DecodeBase58` change the base of a number in buffers whose sizes are rational
bounds, and count the leading zeros apart, in an `int`. Strings of characters are lists of bytes.
A C string ends at its first zero byte, so a decoder that is given a `std::string` does not see
what follows one.
-/

namespace DogeCash

open List (append_nil head_map length_replicate map_id map_map mem_map replicate)

/-- What ends the conversions early. -/
inductive Base58Fault where
  /-- `assert(carry == 0)` -/
  | assertFailed
  /-- An `int` counts beyond its largest value. -/
  | signedOverflow
  deriving DecidableEq

def pszBase58 : List UInt8 :=
  ['1', '2', '3', '4', '5', '6', '7', '8', '9', 'A', 'B', 'C', 'D', 'E', 'F', 'G', 'H', 'J', 'K',
    'L', 'M', 'N', 'P', 'Q', 'R', 'S', 'T', 'U', 'V', 'W', 'X', 'Y', 'Z', 'a', 'b', 'c', 'd', 'e',
    'f', 'g', 'h', 'i', 'j', 'k', 'm', 'n', 'o', 'p', 'q', 'r', 's', 't', 'u', 'v', 'w', 'x', 'y',
    'z'].map fun c => UInt8.ofNat c.toNat

/-- The character `'1'`. -/
def base58One : UInt8 := UInt8.ofNat '1'.toNat

/-- `isspace`, in the C locale. -/
def isspace (c : UInt8) : Bool := c = 32 || (9 ≤ c && c ≤ 13)

/-- `c_str`, as far as its reader sees it. -/
def cStr (str : List UInt8) : List UInt8 := str.takeWhile (· ≠ 0)

/-- `strchr(pszBase58, c) - pszBase58` -/
def base58Digit (c : UInt8) : Option ℕ := if c ∈ pszBase58 then some (pszBase58.idxOf c) else none

/-- A counter of type `int` that has been raised so many times. -/
def countInt (count : ℕ) : Except Base58Fault ℕ :=
  if count < 2 ^ 31 then .ok count else .error .signedOverflow

/-- The loop over the characters in `DecodeBase58`: what is left of the string and the buffer;
`none` where a character is not in the alphabet. -/
def decodeBase58Digits : List UInt8 → List ℕ → Except Base58Fault (Option (List UInt8 × List ℕ))
  | [], b256 => .ok (some ([], b256))
  | c :: psz, b256 =>
    if isspace c then .ok (some (c :: psz, b256))
    else
      match base58Digit c with
      | none => .ok none
      | some digit => do
        let b256 ← Radix.append .assertFailed 58 256 b256 digit
        decodeBase58Digits psz b256

/-- `DecodeBase58` of a C string; `none` where it returns false. -/
def decodeBase58 (psz : List UInt8) : Except Base58Fault (Option (List UInt8)) := do
  let psz := psz.dropWhile isspace
  let zeroes ← countInt (psz.takeWhile (· = base58One)).length
  let psz := psz.dropWhile (· = base58One)
  match ← decodeBase58Digits psz (replicate (psz.length * 733 / 1000 + 1) 0) with
  | none => pure none
  | some (psz, b256) =>
    if psz.dropWhile isspace ≠ [] then pure none
    else pure (some (replicate zeroes 0 ++ (b256.dropWhile (· = 0)).map UInt8.ofNat))

/-- `DecodeBase58` of a `std::string`. -/
def decodeBase58String (str : List UInt8) : Except Base58Fault (Option (List UInt8)) :=
  decodeBase58 (cStr str)

def encodeBase58 (vch : List UInt8) : Except Base58Fault (List UInt8) := do
  let zeroes ← countInt (vch.takeWhile (· = 0)).length
  let bytes := vch.dropWhile (· = 0)
  let b58 ← (bytes.map UInt8.toNat).foldlM (Radix.append .assertFailed 256 58)
    (replicate (bytes.length * 138 / 100 + 1) 0)
  pure (replicate zeroes base58One ++
    (b58.dropWhile (· = 0)).map fun digit => pszBase58.getD digit 0)

section

variable (hash : List UInt8 → UInt256)

def base58Checksum (vch : List UInt8) : List UInt8 := (UInt256.serialize (hash vch)).take 4

def encodeBase58Check (vchIn : List UInt8) : Except Base58Fault (List UInt8) :=
  encodeBase58 (vchIn ++ base58Checksum hash vchIn)

/-- `DecodeBase58Check` of a C string. -/
def decodeBase58Check (psz : List UInt8) : Except Base58Fault (Option (List UInt8)) := do
  match ← decodeBase58 psz with
  | none => pure none
  | some vchRet =>
    if vchRet.length < 4 then pure none
    else
      let body := vchRet.take (vchRet.length - 4)
      if base58Checksum hash body ≠ vchRet.drop (vchRet.length - 4) then pure none
      else pure (some body)

/-- `DecodeBase58Check` of a `std::string`. -/
def decodeBase58CheckString (str : List UInt8) : Except Base58Fault (Option (List UInt8)) :=
  decodeBase58Check hash (cStr str)

end

/-! ## The alphabet -/

theorem nodup_pszBase58 : pszBase58.Nodup := by decide

theorem length_pszBase58 : pszBase58.length = 58 := rfl

theorem not_isspace_of_mem : ∀ c ∈ pszBase58, isspace c = false := by decide +kernel

theorem zero_notMem_pszBase58 : (0 : UInt8) ∉ pszBase58 := by decide

def base58Char (digit : ℕ) : UInt8 := pszBase58.getD digit 0

variable {digit : ℕ} {digits : List ℕ} {bytes : List UInt8}

theorem base58Char_mem (proper : digit < 58) : base58Char digit ∈ pszBase58 := by
  rw [base58Char, List.getD_eq_getElem _ _ (length_pszBase58 ▸ proper)]
  exact List.getElem_mem _

theorem base58Digit_char (proper : digit < 58) : base58Digit (base58Char digit) = some digit := by
  rw [base58Digit, if_pos (base58Char_mem proper), base58Char,
    List.getD_eq_getElem _ _ (length_pszBase58 ▸ proper), nodup_pszBase58.idxOf_getElem]

theorem eq_char_of_base58Digit {c : UInt8} (found : base58Digit c = some digit) :
    digit < 58 ∧ base58Char digit = c := by
  rw [base58Digit] at found
  split_ifs at found with mem
  cases found
  have inside := List.idxOf_lt_length_of_mem mem
  refine ⟨inside, ?_⟩
  rw [base58Char, List.getD_eq_getElem _ _ inside, List.getElem_idxOf]

theorem base58Char_eq_one (proper : digit < 58) : base58Char digit = base58One ↔ digit = 0 := by
  constructor
  · intro same
    have zero : base58Digit base58One = some 0 := by decide
    rw [← same, base58Digit_char proper] at zero
    exact Option.some.inj zero
  · rintro rfl
    decide

/-! ## Leading symbols -/

section

variable {α : Type} [DecidableEq α] {a : α}

theorem exists_leading (a : α) (items : List α) :
    ∃ count rest, items = replicate count a ++ rest ∧ ∀ h : rest ≠ [], rest.head h ≠ a := by
  induction items with
  | nil => exact ⟨0, [], rfl, fun h => absurd rfl h⟩
  | cons first items ih =>
    by_cases same : first = a
    · obtain ⟨count, rest, rfl, other⟩ := ih
      exact ⟨count + 1, rest, by rw [same, List.replicate_succ, List.cons_append], other⟩
    · exact ⟨0, first :: items, rfl, fun _ => same⟩

theorem takeWhile_leading {rest : List α} (count : ℕ) (other : ∀ h : rest ≠ [], rest.head h ≠ a) :
    (replicate count a ++ rest).takeWhile (· = a) = replicate count a := by
  have none : rest.takeWhile (· = a) = [] := by
    cases rest with
    | nil => rfl
    | cons first rest => exact List.takeWhile_cons_of_neg (by simpa using other (by simp))
  rw [List.takeWhile_append_of_pos (by simp), none, append_nil]

theorem dropWhile_leading {rest : List α} (count : ℕ) (other : ∀ h : rest ≠ [], rest.head h ≠ a) :
    (replicate count a ++ rest).dropWhile (· = a) = rest := by
  rw [List.dropWhile_append_of_pos (by simp)]
  cases rest with
  | nil => rfl
  | cons first rest => exact List.dropWhile_cons_of_neg (by simpa using other (by simp))

end

theorem dropWhile_eq_self {α : Type} {test : α → Bool} {items : List α}
    (plain : ∀ item ∈ items, test item = false) : items.dropWhile test = items := by
  cases items with
  | nil => rfl
  | cons first items =>
    exact List.dropWhile_cons_of_neg (by rw [plain first List.mem_cons_self]; decide)

/-! ## The buffers suffice -/

theorem base58_ratio : 58 ^ 1000 ≤ 256 ^ 733 := by decide +kernel

theorem base256_ratio : 256 ^ 100 ≤ 58 ^ 138 := by decide +kernel

def EndsDigits (psz : List UInt8) : Prop := ∀ h : psz ≠ [], isspace (psz.head h) = true

variable {size n room : ℕ} {b256 : List ℕ} {count : ℕ}

theorem decodeBase58Digits_spec (psz : List UInt8) (holds : Radix.Holds 256 size n b256)
    (small : n < 58 ^ room) (fits : 58 ^ (room + psz.length) ≤ 256 ^ size) :
    decodeBase58Digits psz b256 = .ok none ∨
      ∃ (digits : List ℕ) (left : List UInt8) (final : List ℕ), decodeBase58Digits psz b256 =
          .ok (some (left, final)) ∧
        psz = digits.map base58Char ++ left ∧ EndsDigits left ∧ (∀ digit ∈ digits, digit < 58) ∧
        Radix.Holds 256 size (digits.foldl (fun n digit => 58 * n + digit) n) final := by
  induction psz generalizing n room b256 with
  | nil =>
    exact Or.inr ⟨[], [], b256, rfl, rfl, fun h => absurd rfl h,
      nofun, holds⟩
  | cons c psz ih =>
    rw [decodeBase58Digits]
    by_cases space : isspace c = true
    · rw [if_pos space]
      exact Or.inr ⟨[], c :: psz, b256, rfl, rfl, fun _ => space,
        nofun, holds⟩
    rw [if_neg space]
    cases found : base58Digit c with
    | none => exact Or.inl rfl
    | some digit =>
      obtain ⟨proper, rfl⟩ := eq_char_of_base58Digit found
      have shift : room + 1 + psz.length = room + (base58Char digit :: psz).length := by
        rw [List.length_cons]
        omega
      have next : 58 * n + digit < 58 ^ (room + 1) :=
        Radix.foldl_lt (List.forall_mem_singleton.mpr proper) small
      have inside : 58 * n + digit < 256 ^ size :=
        next.trans_le ((Nat.pow_le_pow_right (by decide) (by simp)).trans fits)
      obtain ⟨middle, step, held⟩ := holds.append Base58Fault.assertFailed (by decide) inside
      dsimp only
      rw [step]
      rcases ih held next (shift ▸ fits) with
        failed | ⟨digits, left, final, ends, same, stops, known, last⟩
      · exact Or.inl failed
      · exact Or.inr ⟨digit :: digits, left, final, ends, by rw [same]; rfl, stops,
          List.forall_mem_cons.mpr ⟨proper, known⟩, last⟩

theorem decodeBase58Digits_map (proper : ∀ digit ∈ digits, digit < 58)
    (holds : Radix.Holds 256 size n b256) (small : n < 58 ^ room)
    (fits : 58 ^ (room + digits.length) ≤ 256 ^ size) :
    ∃ final, decodeBase58Digits (digits.map base58Char) b256 = .ok (some ([], final)) ∧
      Radix.Holds 256 size (digits.foldl (fun n digit => 58 * n + digit) n) final := by
  obtain ⟨final, ends, held⟩ := holds.foldlM Base58Fault.assertFailed (by decide) proper small fits
  refine ⟨final, ?_, held⟩
  clear holds small fits held
  induction digits generalizing b256 with
  | nil =>
    cases ends
    rfl
  | cons digit digits ih =>
    obtain ⟨here, others⟩ := List.forall_mem_cons.mp proper
    obtain ⟨middle, step, rest⟩ := foldlM_cons_eq_ok.mp ends
    have plain : isspace (base58Char digit) = false := not_isspace_of_mem _ (base58Char_mem here)
    rw [List.map_cons, decodeBase58Digits, plain, if_neg Bool.false_ne_true, base58Digit_char here]
    dsimp only
    rw [step]
    exact ih others rest

theorem decode_fits (length : ℕ) : 58 ^ (0 + length) ≤ 256 ^ (length * 733 / 1000 + 1) := by
  rw [Nat.zero_add]
  exact (Radix.pow_lt_pow_of_ratio (by decide) (by decide) base58_ratio length).le

theorem encode_fits (length : ℕ) : 256 ^ (0 + length) ≤ 58 ^ (length * 138 / 100 + 1) := by
  rw [Nat.zero_add]
  exact (Radix.pow_lt_pow_of_ratio (by decide) (by decide) base256_ratio length).le

/-! ## What is encoded and decoded -/

theorem lt_of_mem_map_toNat : ∀ digit ∈ bytes.map UInt8.toNat, digit < 256 := by
  intro digit mem
  obtain ⟨byte, -, rfl⟩ := mem_map.mp mem
  exact byte.toNat_lt

def base58Chars (n : ℕ) : List UInt8 := (Nat.digits 58 n).reverse.map base58Char

def base256Bytes (n : ℕ) : List UInt8 := (Nat.digits 256 n).reverse.map UInt8.ofNat

theorem encodeBase58_eq (count : ℕ) (other : ∀ h : bytes ≠ [], bytes.head h ≠ 0) :
    encodeBase58 (replicate count 0 ++ bytes) =
      if count < 2 ^ 31 then
        .ok (replicate count base58One ++ base58Chars (Radix.value 256 (bytes.map UInt8.toNat)))
      else .error .signedOverflow := by
  have start : Radix.Holds 58 (bytes.length * 138 / 100 + 1) 0 _ := .zeros (by decide) _
  have small : 0 < 256 ^ 0 := by decide
  obtain ⟨final, ends, held⟩ := start.foldlM Base58Fault.assertFailed (by decide)
    lt_of_mem_map_toNat small (by rw [List.length_map]; exact encode_fits bytes.length)
  rw [encodeBase58, takeWhile_leading count other, dropWhile_leading count other,
    length_replicate, countInt]
  split_ifs with small
  · change ((bytes.map UInt8.toNat).foldlM
      (Radix.append Base58Fault.assertFailed 256 58)
      (replicate (bytes.length * 138 / 100 + 1) 0) >>= fun b58 =>
        .ok (replicate count base58One ++
          (b58.dropWhile (· = 0)).map fun digit => pszBase58.getD digit 0)) = _
    rw [ends]
    change Except.ok (replicate count base58One ++ List.map _ (final.dropWhile (· = 0))) = _
    rw [held.dropWhile_eq (by decide)]
    rfl
  · rfl

/-- `DecodeBase58` after the leading spaces. -/
theorem decodeBase58_of_leading {psz rest : List UInt8}
    (split : psz.dropWhile isspace = replicate count base58One ++ rest)
    (other : ∀ h : rest ≠ [], rest.head h ≠ base58One) :
    decodeBase58 psz =
      if count < 2 ^ 31 then
        decodeBase58Digits rest (replicate (rest.length * 733 / 1000 + 1) 0) >>= fun outcome =>
          match outcome with
          | none => .ok none
          | some (psz, b256) =>
            if psz.dropWhile isspace ≠ [] then .ok none
            else .ok (some (replicate count 0 ++ (b256.dropWhile (· = 0)).map UInt8.ofNat))
      else .error .signedOverflow := by
  rw [decodeBase58, split, takeWhile_leading count other, dropWhile_leading count other,
    length_replicate, countInt]
  split_ifs with small
  · rfl
  · rfl

theorem head_map_base58Char (proper : ∀ digit ∈ digits, digit < 58) (left : List UInt8)
    (stops : EndsDigits left) :
    (∀ h : digits.map base58Char ++ left ≠ [], (digits.map base58Char ++ left).head h ≠ base58One) ↔
      ∀ h : digits ≠ [], digits.head h ≠ 0 := by
  cases digits with
  | nil =>
    refine iff_of_true (fun nonempty one => ?_) fun nonempty => absurd rfl nonempty
    have space := stops nonempty
    rw [show left.head nonempty = base58One from one] at space
    exact absurd space (by decide)
  | cons digit digits =>
    have first := base58Char_eq_one (proper digit List.mem_cons_self)
    constructor
    · intro other _ zero
      exact other (by simp) (first.mpr zero)
    · intro other _ one
      exact other (by simp) (first.mp one)

theorem decodeBase58_map (small : count < 2 ^ 31) (proper : ∀ digit ∈ digits, digit < 58)
    (other : ∀ h : digits ≠ [], digits.head h ≠ 0) :
    decodeBase58 (replicate count base58One ++ digits.map base58Char) =
      .ok (some (replicate count 0 ++ base256Bytes (Radix.value 58 digits))) := by
  have plain : ∀ c ∈ replicate count base58One ++ digits.map base58Char, isspace c = false := by
    intro c mem
    rcases List.mem_append.mp mem with mem | mem
    · rw [List.eq_of_mem_replicate mem]
      decide
    · obtain ⟨digit, known, rfl⟩ := mem_map.mp mem
      exact not_isspace_of_mem _ (base58Char_mem (proper digit known))
  have first := (head_map_base58Char proper [] fun h => absurd rfl h).mpr other
  rw [append_nil] at first
  have start : Radix.Holds 256 ((digits.map base58Char).length * 733 / 1000 + 1) 0 _ :=
    .zeros (by decide) _
  have none : 0 < 58 ^ 0 := by decide
  obtain ⟨final, ends, held⟩ := decodeBase58Digits_map proper start none
    (by rw [List.length_map]; exact decode_fits digits.length)
  rw [decodeBase58_of_leading (dropWhile_eq_self plain) first, if_pos small, ends]
  change Except.ok (some (replicate count 0 ++ (final.dropWhile (· = 0)).map UInt8.ofNat)) = _
  rw [held.dropWhile_eq (by decide)]
  rfl

theorem decodeBase58_spec (psz : List UInt8) :
    decodeBase58 psz = .ok none ∨ decodeBase58 psz = .error .signedOverflow ∨
      ∃ (count : ℕ) (digits : List ℕ) (v left : List UInt8), decodeBase58 psz = .ok (some v) ∧
        count < 2 ^ 31 ∧ (∀ digit ∈ digits, digit < 58) ∧
        (∀ h : digits ≠ [], digits.head h ≠ 0) ∧ EndsDigits left ∧
        psz.dropWhile isspace = replicate count base58One ++ (digits.map base58Char ++ left) := by
  obtain ⟨count, rest, split, other⟩ := exists_leading base58One (psz.dropWhile isspace)
  have decoded := decodeBase58_of_leading split other
  by_cases small : count < 2 ^ 31
  · rw [if_pos small] at decoded
    have start : Radix.Holds 256 (rest.length * 733 / 1000 + 1) 0 _ := .zeros (by decide) _
    have room : 0 < 58 ^ 0 := by decide
    rcases decodeBase58Digits_spec rest start room (decode_fits rest.length) with
      failed | ⟨digits, left, final, ends, rfl, stops, proper, -⟩
    · rw [failed] at decoded
      exact Or.inl decoded
    · rw [ends] at decoded
      change _ = if left.dropWhile isspace ≠ [] then _ else _ at decoded
      split_ifs at decoded with more
      · exact Or.inl decoded
      · exact Or.inr (Or.inr ⟨count, digits, _, left, decoded, small, proper,
          (head_map_base58Char proper left stops).mp other, stops, split⟩)
  · rw [if_neg small] at decoded
    exact Or.inr (Or.inl decoded)

/-! ## The round trips -/

theorem base256Bytes_value (other : ∀ h : bytes ≠ [], bytes.head h ≠ 0) :
    base256Bytes (Radix.value 256 (bytes.map UInt8.toNat)) = bytes := by
  have first : ∀ h : bytes.map UInt8.toNat ≠ [], (bytes.map UInt8.toNat).head h ≠ 0 := by
    intro nonempty zero
    rw [head_map] at zero
    exact other (List.map_eq_nil_iff.not.mp nonempty) (UInt8.toNat_inj.mp zero)
  rw [base256Bytes, Radix.digits_value (by decide) lt_of_mem_map_toNat first, map_map]
  exact List.map_congr_left (fun byte _ => UInt8.ofNat_toNat) |>.trans (map_id bytes)

theorem map_toNat_base256Bytes (n : ℕ) :
    (base256Bytes n).map UInt8.toNat = (Nat.digits 256 n).reverse := by
  rw [base256Bytes, map_map]
  refine (List.map_congr_left fun digit mem => ?_).trans (map_id _)
  exact UInt8.toNat_ofNat_of_lt (Nat.digits_lt_base (by decide) (List.mem_reverse.mp mem))

theorem head_base256Bytes (n : ℕ) : ∀ h : base256Bytes n ≠ [], (base256Bytes n).head h ≠ 0 := by
  intro nonempty zero
  have digits := map_toNat_base256Bytes n
  have ne : (Nat.digits 256 n).reverse ≠ [] := by
    rw [← digits]
    exact List.map_eq_nil_iff.not.mpr nonempty
  refine Radix.head_digits_ne_zero 256 n ne ?_
  simp only [← digits, head_map, zero]
  rfl

theorem decodeBase58_encodeBase58 (v : List UInt8) :
    (encodeBase58 v >>= decodeBase58String) = .ok (some v) ↔
      (v.takeWhile (· = 0)).length < 2 ^ 31 := by
  obtain ⟨count, bytes, rfl, other⟩ := exists_leading 0 v
  rw [encodeBase58_eq count other, takeWhile_leading count other, length_replicate]
  by_cases small : count < 2 ^ 31
  · refine iff_of_true ?_ small
    rw [if_pos small]
    change decodeBase58String (replicate count base58One ++ base58Chars _) = _
    have proper : ∀ digit ∈ (Nat.digits 58 (Radix.value 256 (bytes.map UInt8.toNat))).reverse,
        digit < 58 :=
      fun digit mem => Nat.digits_lt_base (by decide) (List.mem_reverse.mp mem)
    have whole : cStr (replicate count base58One ++
        base58Chars (Radix.value 256 (bytes.map UInt8.toNat))) =
        replicate count base58One ++ base58Chars (Radix.value 256 (bytes.map UInt8.toNat)) := by
      refine List.takeWhile_eq_self_iff.mpr fun c mem => decide_eq_true ?_
      rintro rfl
      rcases List.mem_append.mp mem with mem | mem
      · exact absurd (List.eq_of_mem_replicate mem) (by decide)
      · obtain ⟨digit, known, zero⟩ := mem_map.mp mem
        exact zero_notMem_pszBase58 (zero ▸ base58Char_mem (proper digit known))
    rw [decodeBase58String, whole, base58Chars, decodeBase58_map small proper
      (Radix.head_digits_ne_zero 58 _), Radix.value_digits, base256Bytes_value other]
  · refine iff_of_false (fun same => ?_) small
    rw [if_neg small] at same
    cases same

theorem encodeBase58_of_decodeBase58 {psz v : List UInt8} (plain : ∀ c ∈ psz, isspace c = false)
    (accepted : decodeBase58 psz = .ok (some v)) : encodeBase58 v = .ok psz := by
  rcases decodeBase58_spec psz with failed | overflow | found
  · rw [failed] at accepted
    cases accepted
  · rw [overflow] at accepted
    cases accepted
  · obtain ⟨count, digits, -, left, -, small, proper, other, stops, split⟩ := found
    rw [dropWhile_eq_self plain] at split
    have nothing : left = [] := by
      by_contra more
      have space := stops more
      rw [plain _ (split ▸ List.mem_append_right _ (List.mem_append_right _
        (List.head_mem more)))] at space
      cases space
    rw [nothing, append_nil] at split
    rw [split, decodeBase58_map small proper other] at accepted
    cases accepted
    rw [encodeBase58_eq count (head_base256Bytes _), if_pos small, map_toNat_base256Bytes,
      Radix.value_digits, base58Chars, Radix.digits_value (by decide) proper other, split]

theorem encodeBase58_ne_assertFailed (v : List UInt8) : encodeBase58 v ≠ .error .assertFailed := by
  obtain ⟨count, bytes, rfl, other⟩ := exists_leading 0 v
  rw [encodeBase58_eq count other]
  split_ifs
  · intro same
    cases same
  · intro same
    cases same

theorem decodeBase58_ne_assertFailed (psz : List UInt8) :
    decodeBase58 psz ≠ .error .assertFailed := by
  rcases decodeBase58_spec psz with same | same | ⟨-, -, v, -, same, -⟩
  all_goals
    rw [same]
    intro failed
    cases failed

theorem length_base58Checksum (hash : List UInt8 → UInt256) (vch : List UInt8) :
    (base58Checksum hash vch).length = 4 := by
  rfl

theorem decodeBase58Check_of_decodeBase58 {hash : List UInt8 → UInt256} {psz vch : List UInt8}
    (decoded : decodeBase58 psz = .ok (some (vch ++ base58Checksum hash vch))) :
    decodeBase58Check hash psz = .ok (some vch) := by
  have length : (vch ++ base58Checksum hash vch).length = vch.length + 4 := by
    rw [List.length_append, length_base58Checksum]
  have body : (vch ++ base58Checksum hash vch).take
      ((vch ++ base58Checksum hash vch).length - 4) = vch := by
    rw [length, Nat.add_sub_cancel, List.take_left]
  have check : (vch ++ base58Checksum hash vch).drop
      ((vch ++ base58Checksum hash vch).length - 4) = base58Checksum hash vch := by
    rw [length, Nat.add_sub_cancel, List.drop_left]
  rw [decodeBase58Check, decoded]
  change (if (vch ++ base58Checksum hash vch).length < 4 then _ else _) = _
  rw [if_neg (by rw [length]; exact Nat.not_lt.mpr (Nat.le_add_left 4 _)), body, check,
    if_neg (not_not.mpr rfl)]
  rfl

theorem decodeBase58Check_encodeBase58Check (hash : List UInt8 → UInt256) (v : List UInt8) :
    (encodeBase58Check hash v >>= decodeBase58CheckString hash) = .ok (some v) ↔
      ((v ++ base58Checksum hash v).takeWhile (· = 0)).length < 2 ^ 31 := by
  have plain := decodeBase58_encodeBase58 (v ++ base58Checksum hash v)
  rw [encodeBase58Check]
  cases encoded : encodeBase58 (v ++ base58Checksum hash v) with
  | error fault =>
    rw [encoded] at plain
    refine iff_of_false (fun same => ?_) (plain.not.mp fun same => ?_)
    · cases same
    · cases same
  | ok str =>
    rw [encoded] at plain
    by_cases small : ((v ++ base58Checksum hash v).takeWhile (· = 0)).length < 2 ^ 31
    · exact iff_of_true (decodeBase58Check_of_decodeBase58 (plain.mpr small)) small
    · exfalso
      obtain ⟨count, bytes, same, other⟩ := exists_leading 0 (v ++ base58Checksum hash v)
      rw [same, takeWhile_leading count other, length_replicate] at small
      rw [same, encodeBase58_eq count other, if_neg small] at encoded
      cases encoded

/-- **Base58.** A vector is recovered from its encoding exactly if an `int` can count its leading
zeros, with the check and without. A `std::string` without spaces that is decoded is the encoding
of the result exactly if it holds no zero byte. No carry is ever left in a buffer. -/
theorem base58_roundTrips (hash : List UInt8 → UInt256) :
    (∀ v, (encodeBase58 v >>= decodeBase58String) = .ok (some v) ↔
      (v.takeWhile (· = 0)).length < 2 ^ 31) ∧
    (∀ s v, (∀ c ∈ s, isspace c = false) → decodeBase58String s = .ok (some v) →
      (encodeBase58 v = .ok s ↔ 0 ∉ s)) ∧
    ((∀ v, encodeBase58 v ≠ .error .assertFailed) ∧
      ∀ psz, decodeBase58 psz ≠ .error .assertFailed) ∧
    ∀ v, (encodeBase58Check hash v >>= decodeBase58CheckString hash) = .ok (some v) ↔
      ((v ++ base58Checksum hash v).takeWhile (· = 0)).length < 2 ^ 31 := by
  refine ⟨decodeBase58_encodeBase58, fun s v plain accepted => ?_,
    ⟨encodeBase58_ne_assertFailed, decodeBase58_ne_assertFailed⟩,
    decodeBase58Check_encodeBase58Check hash⟩
  have inner : ∀ c ∈ cStr s, isspace c = false :=
    fun c mem => plain c ((List.takeWhile_sublist _).subset mem)
  rw [encodeBase58_of_decodeBase58 inner accepted]
  have whole : cStr s = s ↔ 0 ∉ s := by
    rw [cStr, List.takeWhile_eq_self_iff]
    constructor
    · intro all zero
      exact of_decide_eq_true (all 0 zero) rfl
    · intro none c mem
      exact decide_eq_true fun zero => none (zero ▸ mem)
  rw [← whole]
  exact ⟨Except.ok.inj, congrArg Except.ok⟩

/-- The decoder does not see what follows a zero byte. -/
theorem decodeBase58String_zero_byte :
    ¬ ∀ s v, (∀ c ∈ s, isspace c = false) → decodeBase58String s = .ok (some v) →
      encodeBase58 v = .ok s := by
  intro all
  have encoded := all [50, 0] [1] (by decide +kernel) (by decide +kernel)
  cases encoded

end DogeCash
