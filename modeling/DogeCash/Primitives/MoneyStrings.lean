import DogeCash.Primitives.Base58

/-! # Amounts as strings

`FormatMoney` writes an amount in coins with eight decimals, of which it drops the zeros at the
end but for the first two. `ParseMoney` collects the digits in front of the point in a string, and
adds up those behind it. Its arithmetic is that of `int64_t`, which nothing guards but the length
of the string.
-/

namespace DogeCash

open Option (bind_eq_bind bind_some)
open List (append_assoc cons_append forall_mem_cons length_append mem_append mem_reverse
  nil_append replicate)

namespace Money

def coin : Int := 100000000

def cent : Int := 1000000

/-- A number in an `int64_t`. Nothing where it overflows. -/
def int64 (n : Int) : Option Int := if -2 ^ 63 ≤ n ∧ n < 2 ^ 63 then some n else none

def isdigit (c : UInt8) : Bool := 48 ≤ c && c ≤ 57

/-- The digits of a number, as `%d` writes it. -/
def decimal (n : ℕ) : List UInt8 :=
  if n = 0 then [48] else (Nat.digits 10 n).reverse.map fun digit => UInt8.ofNat (48 + digit)

/-- The digits of a number, as `%08d` writes it. -/
def decimal8 (n : ℕ) : List UInt8 := replicate (8 - (decimal n).length) 48 ++ decimal n

/-- The loop that trims the zeros at the end of a string, from its last character on. Two
characters before a zero that is trimmed there is a digit. -/
def trimZeros : List UInt8 → List UInt8
  | c :: before :: second :: rest =>
    if c = 48 ∧ isdigit second = true then trimZeros (before :: second :: rest)
    else c :: before :: second :: rest
  | rest => rest

def formatMoney (n : Int) (fPlus : Bool) : List UInt8 :=
  let quotient := n.natAbs / coin.toNat
  let remainder := n.natAbs % coin.toNat
  let str := (trimZeros (decimal quotient ++ 46 :: decimal8 remainder).reverse).reverse
  if n < 0 then 45 :: str else if fPlus && 0 < n then 43 :: str else str

/-- The loop of `ParseMoney` over the digits behind the point: their units, and what follows. -/
def parseUnits (nMult nUnits : Int) : List UInt8 → Option (Int × List UInt8)
  | [] => some (nUnits, [])
  | c :: p =>
    if isdigit c && 0 < nMult then do
      let nUnits ← int64 (nUnits + (← int64 (nMult * (c.toNat - 48))))
      parseUnits (nMult / 10) nUnits p
    else some (nUnits, c :: p)

/-- The loop of `ParseMoney` over the digits in front of the point: these, the units, and what
follows. The inner `none` is the return of false. -/
def parseWhole (strWhole : List UInt8) :
    List UInt8 → Option (Option (List UInt8 × Int × List UInt8))
  | [] => some (some (strWhole, 0, []))
  | c :: p =>
    if c = 46 then do
      let (nUnits, p) ← parseUnits (cent * 10) 0 p
      return some (strWhole, nUnits, p)
    else if isspace c then some (some (strWhole, 0, c :: p))
    else if !isdigit c then some none
    else parseWhole (strWhole ++ [c]) p

/-- `atoi64` of digits, which `strtoll` reads as the greatest number where they are too many. -/
def atoi64 (str : List UInt8) : Int :=
  min (Radix.value 10 (str.map fun c => c.toNat - 48)) (2 ^ 63 - 1)

/-- `ParseMoney`, up to the first zero byte. The outer `none` is an overflow, the inner one the
return of false. -/
def parseMoney (str : List UInt8) : Option (Option Int) := do
  match ← parseWhole [] ((str.takeWhile (· ≠ 0)).dropWhile isspace) with
  | none => return none
  | some (strWhole, nUnits, p) =>
    if p.any fun c => !isspace c then return none
    if 10 < strWhole.length then return none
    if nUnits < 0 ∨ coin < nUnits then return none
    let nWhole ← int64 (atoi64 strWhole * coin)
    return some (← int64 (nWhole + nUnits))

/-! ## Reading -/

def spelled (digits : List UInt8) : ℕ := Radix.value 10 (digits.map fun c => c.toNat - 48)

theorem int64_natCast {n : ℕ} (small : n < 2 ^ 63) : int64 n = some (n : Int) := if_pos (by omega)

variable {c : UInt8} {j u : ℕ} {digits : List UInt8}

theorem isdigit_iff : isdigit c = true ↔ 48 ≤ c.toNat ∧ c.toNat ≤ 57 := by
  simp [isdigit, UInt8.le_iff_toNat_le]

theorem spelled_cons (c : UInt8) (digits : List UInt8) :
    spelled (c :: digits) = spelled digits + 10 ^ digits.length * (c.toNat - 48) := by
  rw [spelled, List.map_cons, Radix.value_cons, List.length_map]
  rfl

theorem parseUnits_cons (room : u + 10 ^ (j + 1) ≤ 10 ^ 8) (digit : isdigit c = true)
    (p : List UInt8) :
    u + 10 ^ j * (c.toNat - 48) + 10 ^ j ≤ 10 ^ 8 ∧
      parseUnits (10 ^ (j + 1) / 10 : ℕ) u (c :: p) =
        parseUnits (10 ^ j / 10 : ℕ) (u + 10 ^ j * (c.toNat - 48) : ℕ) p := by
  obtain ⟨least, most⟩ := isdigit_iff.mp digit
  have scaled : 10 ^ j * (c.toNat - 48 + 1) ≤ 10 ^ j * 10 := Nat.mul_le_mul_left _ (by omega)
  have tenth : 10 ^ (j + 1) / 10 = 10 ^ j := by rw [Nat.pow_succ, Nat.mul_div_cancel _ (by decide)]
  have product : ((10 ^ j : ℕ) : Int) * ((c.toNat : Int) - 48) = (10 ^ j * (c.toNat - 48) : ℕ) := by
    rw [Nat.cast_mul, Nat.cast_sub least, Nat.cast_ofNat]
  rw [Nat.mul_add_one] at scaled
  refine ⟨by omega, ?_⟩
  rw [tenth, parseUnits, if_pos (by simp [digit]), product, int64_natCast (by omega),
    bind_eq_bind, bind_some, ← Nat.cast_add, int64_natCast (by omega),
    bind_some, Int.natCast_ediv, Nat.cast_ofNat]

theorem exists_parseUnits (room : u + 10 ^ j ≤ 10 ^ 8) (p : List UInt8) :
    ∃ (units : ℕ) (rest : List UInt8), units < 10 ^ 8 ∧
      parseUnits (10 ^ j / 10 : ℕ) u p = some ((units : Int), rest) := by
  have positive : 0 < 10 ^ j := Nat.pow_pos (by decide)
  induction p generalizing j u with
  | nil => exact ⟨u, [], by omega, rfl⟩
  | cons c p ih =>
    by_cases digit : isdigit c = true
    · cases j with
      | zero => exact ⟨u, c :: p, by omega, by rw [parseUnits]; simp⟩
      | succ j =>
        obtain ⟨left, same⟩ := parseUnits_cons room digit p
        rw [same]
        exact ih left (Nat.pow_pos (by decide))
    · exact ⟨u, c :: p, by omega, by rw [parseUnits]; simp [digit]⟩

theorem parseUnits_digits (room : u + 10 ^ j ≤ 10 ^ 8) (all : ∀ c ∈ digits, isdigit c = true)
    (short : digits.length ≤ j) :
    parseUnits (10 ^ j / 10 : ℕ) u digits =
      some (((u + spelled digits * 10 ^ (j - digits.length) : ℕ) : Int), []) := by
  induction digits generalizing j u with
  | nil => simp [parseUnits, spelled, Radix.value]
  | cons c digits ih =>
    obtain ⟨here, all⟩ := forall_mem_cons.mp all
    obtain ⟨j, rfl⟩ := Nat.exists_eq_add_of_le' (Nat.lt_of_lt_of_le (Nat.succ_pos _) short)
    have short := Nat.le_of_succ_le_succ short
    obtain ⟨left, same⟩ := parseUnits_cons room here digits
    have power : 10 ^ digits.length * 10 ^ (j - digits.length) = 10 ^ j := by
      rw [← Nat.pow_add, Nat.add_sub_cancel' short]
    rw [same, ih left all short, spelled_cons, List.length_cons, Nat.add_sub_add_right,
      Nat.add_mul, Nat.mul_right_comm, power, Nat.add_assoc, Nat.add_comm (10 ^ j * _)]

/-- **No computation overflows**, whatever the string is. -/
theorem exists_parseWhole (strWhole p : List UInt8) :
    ∃ whole, parseWhole strWhole p = some whole ∧
      ∀ parsed ∈ whole, 0 ≤ parsed.2.1 ∧ parsed.2.1 < 10 ^ 8 := by
  induction p generalizing strWhole with
  | nil => exact ⟨_, rfl, by simp⟩
  | cons c p ih =>
    rw [parseWhole]
    split_ifs
    · obtain ⟨units, rest, small, same⟩ := exists_parseUnits (j := 8) (u := 0) (by decide) p
      have same : parseUnits (cent * 10) 0 p = some ((units : Int), rest) := same
      refine ⟨some (strWhole, units, rest), by rw [same]; rfl, fun parsed mem => ?_⟩
      cases mem
      dsimp only
      omega
    · exact ⟨_, rfl, by simp⟩
    · exact ⟨_, rfl, by simp⟩
    · exact ih _

theorem spelled_lt (all : ∀ c ∈ digits, isdigit c = true) :
    spelled digits < 10 ^ digits.length := by
  induction digits with
  | nil => exact Nat.one_pos
  | cons c digits ih =>
    obtain ⟨here, all⟩ := forall_mem_cons.mp all
    have range := isdigit_iff.mp here
    have scaled : 10 ^ digits.length * (c.toNat - 48 + 1) ≤ 10 ^ digits.length * 10 :=
      Nat.mul_le_mul_left _ (by omega)
    have rest := ih all
    rw [Nat.mul_add_one] at scaled
    rw [spelled_cons, List.length_cons, Nat.pow_succ]
    omega

theorem isdigit_of_parseWhole {strWhole p : List UInt8} {parsed : List UInt8 × Int × List UInt8}
    (all : ∀ c ∈ strWhole, isdigit c = true)
    (ok : parseWhole strWhole p = some (some parsed)) : ∀ c ∈ parsed.1, isdigit c = true := by
  induction p generalizing strWhole with
  | nil =>
    cases ok
    exact all
  | cons c p ih =>
    rw [parseWhole] at ok
    split_ifs at ok with point space other
    · obtain ⟨units, -, same⟩ := Option.bind_eq_some_iff.mp ok
      cases same
      exact all
    · cases ok
      exact all
    · cases ok
    · refine ih (fun digit mem => ?_) ok
      rcases mem_append.mp mem with before | here
      · exact all digit before
      · cases List.mem_singleton.mp here
        simpa using other

theorem exists_parseMoney (str : List UInt8) : ∃ result, parseMoney str = some result := by
  obtain ⟨whole, same, small⟩ := exists_parseWhole [] ((str.takeWhile (· ≠ 0)).dropWhile isspace)
  rw [parseMoney, same]
  rcases whole with _ | ⟨strWhole, nUnits, p⟩
  · exact ⟨_, rfl⟩
  · obtain ⟨-, small⟩ : 0 ≤ nUnits ∧ nUnits < 10 ^ 8 := small _ rfl
    have bound : spelled strWhole < 10 ^ strWhole.length :=
      spelled_lt (isdigit_of_parseWhole (by simp) same)
    simp only [bind_eq_bind, bind_some]
    split_ifs with behind long outside
    · exact ⟨_, rfl⟩
    · exact ⟨_, rfl⟩
    · exact ⟨_, rfl⟩
    · have most : spelled strWhole < 10 ^ 10 :=
        Nat.lt_of_lt_of_le bound (Nat.pow_le_pow_right (by decide) (Nat.le_of_not_lt long))
      have number : atoi64 strWhole = spelled strWhole := by
        refine min_eq_left ?_
        change (spelled strWhole : Int) ≤ _
        omega
      have product : int64 (atoi64 strWhole * coin) = some (spelled strWhole * coin) := by
        rw [number, coin]
        exact if_pos (by omega)
      have sum :
          int64 (spelled strWhole * coin + nUnits) = some (spelled strWhole * coin + nUnits) := by
        rw [coin]
        exact if_pos (by omega)
      exact ⟨_, by rw [product, bind_some, sum]; rfl⟩

/-! ## Writing -/

theorem toNat_digit {digit : ℕ} (small : digit < 10) :
    (UInt8.ofNat (48 + digit)).toNat = 48 + digit := by
  rw [UInt8.toNat_ofNat']
  omega

theorem isdigit_decimal (n : ℕ) : ∀ c ∈ decimal n, isdigit c = true := by
  intro c mem
  rw [decimal] at mem
  split_ifs at mem
  · cases List.mem_singleton.mp mem
    rfl
  · obtain ⟨digit, inside, rfl⟩ := List.mem_map.mp mem
    have small := Nat.digits_lt_base (by decide) (mem_reverse.mp inside)
    rw [isdigit_iff, toNat_digit small]
    omega

theorem spelled_decimal (n : ℕ) : spelled (decimal n) = n := by
  rw [decimal]
  split_ifs with zero
  · exact zero.symm
  · rw [spelled, List.map_map]
    have same : (Nat.digits 10 n).reverse.map ((fun c : UInt8 => c.toNat - 48) ∘
        fun digit => UInt8.ofNat (48 + digit)) = (Nat.digits 10 n).reverse := by
      refine List.map_congr_left (fun digit inside => ?_) |>.trans (List.map_id _)
      have small := Nat.digits_lt_base (by decide) (mem_reverse.mp inside)
      simp only [Function.comp_apply, toNat_digit small, Nat.add_sub_cancel_left, id_eq]
    rw [same, Radix.value_digits]

theorem length_decimal_le {n width : ℕ} (positive : 0 < width) (small : n < 10 ^ width) :
    (decimal n).length ≤ width := by
  rw [decimal]
  split_ifs
  · exact positive
  · rw [List.length_map, List.length_reverse]
    exact (Nat.digits_length_le_iff (by decide) n).mpr small

theorem exists_trimZeros {decimals : List UInt8} (all : ∀ c ∈ decimals, isdigit c = true)
    (two : 2 ≤ decimals.length) (before : List UInt8) :
    ∃ (zeros : ℕ) (kept : List UInt8), decimals = replicate zeros 48 ++ kept ∧
      trimZeros (decimals ++ 46 :: before) = kept ++ 46 :: before := by
  induction decimals with
  | nil => exact absurd two (by decide)
  | cons c rest ih =>
    obtain ⟨-, all⟩ := forall_mem_cons.mp all
    match rest with
    | [] => exact absurd two (by decide : ¬2 ≤ 1)
    | [next] => exact ⟨0, [c, next], rfl, if_neg (by simp [isdigit])⟩
    | next :: second :: others =>
      by_cases zero : c = 48
      · obtain ⟨zeros, kept, same, trimmed⟩ := ih all (Nat.le_add_left 2 _)
        refine ⟨zeros + 1, kept, by rw [same, zero]; rfl, ?_⟩
        rw [← trimmed]
        exact if_pos ⟨zero, all second (by simp)⟩
      · exact ⟨0, c :: next :: second :: others, rfl, if_neg fun both => zero both.1⟩

theorem spelled_replicate (zeros : ℕ) (digits : List UInt8) :
    spelled (replicate zeros 48 ++ digits) = spelled digits := by
  induction zeros with
  | zero => rfl
  | succ zeros ih => rw [List.replicate_succ, cons_append, spelled_cons, ih]; simp

theorem spelled_append_zeros (digits : List UInt8) (zeros : ℕ) :
    spelled (digits ++ replicate zeros 48) = spelled digits * 10 ^ zeros := by
  induction digits with
  | nil =>
    have none := spelled_replicate zeros []
    rw [List.append_nil] at none
    rw [nil_append, none]
    exact (Nat.zero_mul _).symm
  | cons c digits ih =>
    rw [cons_append, spelled_cons, ih, spelled_cons, length_append,
      List.length_replicate, Nat.pow_add]
    ring

theorem plain_of_isdigit (digit : isdigit c = true) : c ≠ 46 ∧ c ≠ 0 ∧ isspace c = false := by
  have range := isdigit_iff.mp digit
  refine ⟨by rintro rfl; exact absurd range (by decide),
    by rintro rfl; exact absurd range (by decide),
    ?_⟩
  by_contra space
  simp only [isspace, Bool.not_eq_false, Bool.or_eq_true, decide_eq_true_eq, Bool.and_eq_true,
    UInt8.le_iff_toNat_le, ← UInt8.toNat_inj] at space
  have feed : (13 : UInt8).toNat = 13 := rfl
  have blank : (32 : UInt8).toNat = 32 := rfl
  omega

theorem parseWhole_digits {whole : List UInt8} (all : ∀ c ∈ whole, isdigit c = true)
    (strWhole p : List UInt8) :
    parseWhole strWhole (whole ++ p) = parseWhole (strWhole ++ whole) p := by
  induction whole generalizing strWhole with
  | nil => rw [nil_append, List.append_nil]
  | cons c whole ih =>
    obtain ⟨here, all⟩ := forall_mem_cons.mp all
    obtain ⟨point, -, space⟩ := plain_of_isdigit here
    rw [cons_append, parseWhole, if_neg point, space, if_neg (by decide), here,
      if_neg (by decide), ih all, append_assoc, List.singleton_append]

/-- **Money strings.** Amounts below 10 ^ 18 are read back from what is written of them, and no
string makes the reading overflow. -/
theorem moneyStrings :
    (∀ n : Int, 0 ≤ n → n < 10 ^ 18 → parseMoney (formatMoney n false) = some (some n)) ∧
      ∀ str, ∃ result, parseMoney str = some result := by
  refine ⟨fun n nonneg small => ?_, exists_parseMoney⟩
  obtain ⟨n, rfl⟩ := Int.eq_ofNat_of_zero_le nonneg
  set quotient := n / 100000000 with whole
  set remainder := n % 100000000 with parts
  have few : remainder < 10 ^ 8 := Nat.mod_lt _ (by decide)
  have short := length_decimal_le (by decide) few
  have eight : (decimal8 remainder).length = 8 := by
    rw [decimal8, length_append, List.length_replicate]
    omega
  have digits8 : ∀ c ∈ decimal8 remainder, isdigit c = true := by
    intro c mem
    rcases mem_append.mp mem with zero | digit
    · cases List.eq_of_mem_replicate zero
      rfl
    · exact isdigit_decimal remainder c digit
  obtain ⟨zeros, kept, same, trimmed⟩ := exists_trimZeros
    (fun c mem => digits8 c (mem_reverse.mp mem))
    (by rw [List.length_reverse, eight]; decide) (decimal quotient).reverse
  have written : formatMoney n false = decimal quotient ++ 46 :: kept.reverse := by
    have str : (trimZeros (decimal quotient ++ 46 :: decimal8 remainder).reverse).reverse =
        decimal quotient ++ 46 :: kept.reverse := by
      rw [List.reverse_append, List.reverse_cons, append_assoc, List.singleton_append, trimmed,
        List.reverse_append, List.reverse_cons, List.reverse_reverse, append_assoc,
        List.singleton_append]
    exact str
  have decimals : decimal8 remainder = kept.reverse ++ replicate zeros 48 := by
    rw [← List.reverse_reverse (decimal8 remainder), same, List.reverse_append,
      List.reverse_replicate]
  have kepts : ∀ c ∈ kept.reverse, isdigit c = true := fun c mem =>
    digits8 c (decimals ▸ List.mem_append_left _ mem)
  have places : kept.reverse.length + zeros = 8 := by
    rw [← eight, decimals, length_append, List.length_replicate]
  have plain : ∀ c ∈ decimal quotient ++ 46 :: kept.reverse, c ≠ 0 ∧ isspace c = false := by
    intro c mem
    rcases mem_append.mp mem with front | behind
    · exact (plain_of_isdigit (isdigit_decimal quotient c front)).2
    · rcases List.mem_cons.mp behind with rfl | behind
      · decide
      · exact (plain_of_isdigit (kepts c behind)).2
  have start : ((decimal quotient ++ 46 :: kept.reverse).takeWhile (· ≠ 0)).dropWhile isspace =
      decimal quotient ++ 46 :: kept.reverse := by
    rw [List.takeWhile_eq_self_iff.mpr fun c mem => by simpa using (plain c mem).1,
      List.dropWhile_eq_self_iff]
    intro nonempty
    rw [(plain _ (List.getElem_mem _)).2]
    exact Bool.false_ne_true
  have units : parseUnits (cent * 10) 0 kept.reverse = some ((remainder : Int), []) := by
    have read := parseUnits_digits (j := 8) (u := 0) (by decide) kepts (by omega)
    have padded := spelled_replicate (8 - (decimal remainder).length) (decimal remainder)
    rw [spelled_decimal, ← decimal8, decimals, spelled_append_zeros] at padded
    rw [Nat.zero_add, show 8 - kept.reverse.length = zeros by omega, padded] at read
    exact read
  have parsed : parseWhole [] (decimal quotient ++ 46 :: kept.reverse) =
      some (some (decimal quotient, (remainder : Int), [])) := by
    rw [parseWhole_digits (isdigit_decimal quotient), nil_append, parseWhole, if_pos rfl, units]
    rfl
  have ten := @length_decimal_le quotient 10 (by decide) (by omega)
  have number : atoi64 (decimal quotient) = quotient :=
    (congrArg (min · _) (congrArg Nat.cast (spelled_decimal quotient))).trans
      (min_eq_left (by omega))
  rw [written, parseMoney, start, parsed]
  simp only [bind_eq_bind, bind_some, List.any_nil, number]
  rw [if_neg (by decide), if_neg (by omega), if_neg (by rw [coin]; omega), coin,
    show (quotient : Int) * 100000000 = (quotient * 100000000 : ℕ) by push_cast; rfl,
    int64_natCast (by omega), bind_some, ← Nat.cast_add, int64_natCast (by omega),
    show quotient * 100000000 + remainder = n by omega]
  rfl

end Money

end DogeCash
