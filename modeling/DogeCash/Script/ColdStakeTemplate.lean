import DogeCash.Script.Solver

/-! # The fast test for cold staking and its template

`IsPayToColdStaking` looks at a length and at seven positions; `Solver` reads the script
instruction by instruction. Seven positions leave five opcodes of the template unread, and
reading accepts every encoding of a push of twenty bytes, of which the positions allow only
the shortest. The two tests differ exactly on the scripts of these two kinds.
-/

namespace DogeCash

open Op

/-! ## Reading one instruction -/

namespace CScript

/-- What `GetOp` accepts in front of twenty bytes of data: the length as an opcode, or after
one of the three `OP_PUSHDATA`. -/
def hashPushes : List CScript :=
  [[0x14], [0x4c, 0x14], [0x4d, 0x14, 0x00], [0x4e, 0x14, 0x00, 0x00, 0x00]]

def IsHashPush (hash : Valtype) (push : CScript) : Prop :=
  hash.length = 20 ∧ ∃ pushed ∈ hashPushes, push = pushed ++ hash

private theorem map_takeData_eq_some {size : Nat} {rest left : CScript} {data : Valtype}
    {first opcode : UInt8} :
    ((takeData size rest).map fun (data, rest) => (first, data, rest)) = some (opcode, data, left) ↔
      first = opcode ∧ data.length = size ∧ rest = data ++ left := by
  rw [← takeData_eq_some, Option.map_eq_some_iff]
  constructor
  · rintro ⟨⟨taken, after⟩, ok, same⟩
    cases same
    exact ⟨rfl, ok⟩
  · rintro ⟨rfl, ok⟩
    exact ⟨_, ok, rfl⟩

/-- How an instruction lies in a script: its opcode, the bytes that give the length of its
data, and the data. -/
inductive Encoded : UInt8 → CScript → Valtype → Prop where
  | direct {opcode data} (low : opcode < 0x4c) (size : data.length = opcode.toNat) :
      Encoded opcode [] data
  | pushData1 {n data} (size : data.length = n.toNat) : Encoded 0x4c [n] data
  | pushData2 {low high data} (size : data.length = fromLittleEndian [low, high]) :
      Encoded 0x4d [low, high] data
  | pushData4 {a b c d data} (size : data.length = fromLittleEndian [a, b, c, d]) :
      Encoded 0x4e [a, b, c, d] data
  | bare {opcode} (high : 0x4e < opcode) : Encoded opcode [] []

theorem Encoded.of_getOp {script rest : CScript} {opcode : UInt8} {data : Valtype}
    (read : getOp script = some (opcode, data, rest)) :
    ∃ size, Encoded opcode size data ∧ script = opcode :: (size ++ (data ++ rest)) := by
  cases script with
  | nil => cases read
  | cons first tail =>
    simp only [getOp] at read
    split at read
    case isTrue low =>
      obtain ⟨rfl, size, rfl⟩ := map_takeData_eq_some.mp read
      exact ⟨[], .direct low size, rfl⟩
    split at read
    case isTrue one =>
      subst one
      split at read
      · obtain ⟨rfl, size, rfl⟩ := map_takeData_eq_some.mp read
        exact ⟨_, .pushData1 size, rfl⟩
      · cases read
    split at read
    case isTrue two =>
      subst two
      split at read
      · obtain ⟨rfl, size, rfl⟩ := map_takeData_eq_some.mp read
        exact ⟨_, .pushData2 size, rfl⟩
      · cases read
    split at read
    case isTrue four =>
      subst four
      split at read
      · obtain ⟨rfl, size, rfl⟩ := map_takeData_eq_some.mp read
        exact ⟨_, .pushData4 size, rfl⟩
      · cases read
    rename_i high one two four
    cases read
    refine ⟨[], .bare ?_, rfl⟩
    rw [UInt8.lt_iff_toNat_lt] at high ⊢
    rw [← UInt8.toNat_inj] at one two four
    change ¬ _ < 76 at high
    change ¬ _ = 76 at one
    change ¬ _ = 77 at two
    change ¬ _ = 78 at four
    change 78 < _
    omega

theorem Encoded.getOp {opcode : UInt8} {size : CScript} {data : Valtype}
    (encoded : Encoded opcode size data) (rest : CScript) :
    getOp (opcode :: (size ++ (data ++ rest))) = some (opcode, data, rest) := by
  cases encoded with
  | direct low size => exact (if_pos low).trans (map_takeData_eq_some.mpr ⟨rfl, size, rfl⟩)
  | pushData1 size => exact map_takeData_eq_some.mpr ⟨rfl, size, rfl⟩
  | pushData2 size => exact map_takeData_eq_some.mpr ⟨rfl, size, rfl⟩
  | pushData4 size => exact map_takeData_eq_some.mpr ⟨rfl, size, rfl⟩
  | bare high =>
    have above : ∀ low : UInt8, low ≤ 0x4e → ¬ opcode < low ∧ opcode ≠ low := by
      intro low below
      rw [UInt8.lt_iff_toNat_lt] at high ⊢
      rw [UInt8.le_iff_toNat_le] at below
      exact ⟨by omega, by rintro rfl; omega⟩
    exact (if_neg (above 0x4c (by decide)).1).trans <|
      (if_neg (above 0x4c (by decide)).2).trans <|
      (if_neg (above 0x4d (by decide)).2).trans (if_neg (above 0x4e (by decide)).2)

theorem getOp_bare {opcode : UInt8} (high : 0x4e < opcode) (rest : CScript) :
    getOp (opcode :: rest) = some (opcode, [], rest) := (Encoded.bare high).getOp rest

theorem eq_cons_of_getOp {opcode : UInt8} (high : 0x4e < opcode) {script rest : CScript}
    {data : Valtype} (read : getOp script = some (opcode, data, rest)) :
    script = opcode :: rest := by
  obtain ⟨size, encoded, rfl⟩ := Encoded.of_getOp read
  cases encoded with
  | direct low => exact absurd (UInt8.lt_trans high low) (by decide)
  | pushData1 | pushData2 | pushData4 => exact absurd high (by decide)
  | bare => rfl

private theorem eq_zero_of_littleEndian {bytes : List UInt8}
    (zero : fromLittleEndian bytes = 0) : ∀ byte ∈ bytes, byte = 0 := by
  induction bytes with
  | nil => exact nofun
  | cons first others ih =>
    simp only [fromLittleEndian] at zero
    exact List.forall_mem_cons.mpr
      ⟨UInt8.toNat_inj.mp (by change _ = 0; omega), ih (by omega)⟩

private theorem bytes_of_twenty {first : UInt8} {others : List UInt8}
    (sum : fromLittleEndian (first :: others) = 20) :
    first = 0x14 ∧ ∀ byte ∈ others, byte = 0 := by
  simp only [fromLittleEndian] at sum
  exact ⟨UInt8.toNat_inj.mp (by change _ = 20; omega), eq_zero_of_littleEndian (by omega)⟩

theorem isHashPush_of_getOp {script rest : CScript} {opcode : UInt8} {hash : Valtype}
    (read : getOp script = some (opcode, hash, rest)) (twenty : hash.length = 20) :
    ∃ push, IsHashPush hash push ∧ script = push ++ rest := by
  obtain ⟨size, encoded, rfl⟩ := Encoded.of_getOp read
  refine ⟨opcode :: (size ++ hash), ⟨twenty, opcode :: size, ?_, rfl⟩, by
    rw [List.cons_append, List.append_assoc]⟩
  cases encoded with
  | direct low length =>
    cases UInt8.toNat_inj.mp (length.symm.trans twenty : _ = (0x14 : UInt8).toNat)
    decide
  | pushData1 length =>
    cases UInt8.toNat_inj.mp (length.symm.trans twenty : _ = (0x14 : UInt8).toNat)
    decide
  | pushData2 length =>
    obtain ⟨rfl, zeros⟩ := bytes_of_twenty (length.symm.trans twenty)
    cases zeros _ (.head _)
    decide
  | pushData4 length =>
    obtain ⟨rfl, zeros⟩ := bytes_of_twenty (length.symm.trans twenty)
    cases zeros _ (.head _)
    cases zeros _ (.tail _ (.head _))
    cases zeros _ (.tail _ (.tail _ (.head _)))
    decide
  | bare => cases twenty

theorem IsHashPush.getOp {push : CScript} {hash : Valtype} (pushed : IsHashPush hash push)
    (rest : CScript) : ∃ opcode, getOp (push ++ rest) = some (opcode, hash, rest) := by
  obtain ⟨twenty, start, known, rfl⟩ := pushed
  simp only [hashPushes, List.mem_cons, List.not_mem_nil, or_false] at known
  rcases known with rfl | rfl | rfl | rfl
  · exact ⟨_, (Encoded.direct (by decide) twenty).getOp rest⟩
  · exact ⟨_, (Encoded.pushData1 twenty).getOp rest⟩
  · exact ⟨_, (Encoded.pushData2 twenty).getOp rest⟩
  · exact ⟨_, (Encoded.pushData4 twenty).getOp rest⟩

end CScript

open CScript

/-! ## The template of `TX_COLDSTAKE` -/

def coldStakeScript (staker owner : CScript) : CScript :=
  [OP_DUP, OP_HASH160, OP_ROT, OP_IF, OP_CHECKCOLDSTAKEVERIFY] ++
    (staker ++ ([OP_ELSE] ++ (owner ++ [OP_ENDIF, OP_EQUALVERIFY, OP_CHECKSIG])))

namespace Solver

def IsPlain (opcode : UInt8) : Prop :=
  0x4e < opcode ∧ opcode ∉ [OP_PUBKEY, OP_PUBKEYHASH, OP_SMALLINTEGER, OP_PUBKEYS]

instance (opcode : UInt8) : Decidable (IsPlain opcode) := inferInstanceAs (Decidable (_ ∧ _))

theorem matchTemplate_nil {script : CScript} {vSolutions found : List Valtype} :
    matchTemplate [] script vSolutions = some found ↔ script = [] ∧ found = vSolutions := by
  cases script with
  | nil => exact ⟨fun same => ⟨rfl, (Option.some.inj same).symm⟩, fun ⟨_, same⟩ => same ▸ rfl⟩
  | cons => exact ⟨nofun, nofun⟩

theorem matchOpcode_plain {opcode : UInt8} (plain : IsPlain opcode) {opcode1 : UInt8}
    {vch1 : Valtype} {found : List Valtype} :
    matchOpcode opcode opcode1 vch1 = some found ↔ opcode1 = opcode ∧ vch1 = [] ∧ found = [] := by
  obtain ⟨-, ordinary⟩ := plain
  simp only [List.mem_cons, List.not_mem_nil, or_false, not_or] at ordinary
  obtain ⟨notKey, notHash, notInteger, -⟩ := ordinary
  rw [matchOpcode, if_neg notKey, if_neg notHash, if_neg notInteger]
  constructor
  · intro matched
    split at matched
    · rename_i same
      exact ⟨same.1, same.2, (Option.some.inj matched).symm⟩
    · cases matched
  · rintro ⟨rfl, rfl, rfl⟩
    exact if_pos ⟨rfl, rfl⟩

/-- One opcode of a template, other than `OP_PUBKEYS`, is compared with one instruction. -/
theorem matchTemplate_cons {opcode : UInt8} (single : opcode ≠ OP_PUBKEYS)
    {template script : CScript} {vSolutions found : List Valtype} :
    matchTemplate (opcode :: template) script vSolutions = some found ↔
      ∃ opcode1 vch1 rest solved, getOp script = some (opcode1, vch1, rest) ∧
        matchOpcode opcode opcode1 vch1 = some solved ∧
        matchTemplate template rest (vSolutions ++ solved) = some found := by
  rw [matchTemplate]
  constructor
  · intro matched
    split at matched
    · cases matched
    · rename_i opcode1 vch1 rest read
      rw [if_neg single] at matched
      obtain ⟨solved, one, others⟩ := Option.bind_eq_some_iff.mp matched
      exact ⟨opcode1, vch1, rest, solved, read, one, others⟩
  · rintro ⟨opcode1, vch1, rest, solved, read, one, others⟩
    simp [read, if_neg single, one, others]

theorem matchTemplate_plain {opcode : UInt8} (plain : IsPlain opcode) {template script : CScript}
    {vSolutions found : List Valtype} :
    matchTemplate (opcode :: template) script vSolutions = some found ↔
      ∃ rest, script = opcode :: rest ∧ matchTemplate template rest vSolutions = some found := by
  have single : opcode ≠ OP_PUBKEYS := by
    rintro rfl
    exact plain.2 (by decide)
  rw [matchTemplate_cons single]
  constructor
  · rintro ⟨opcode1, vch1, rest, solved, read, one, others⟩
    obtain ⟨rfl, rfl, rfl⟩ := (matchOpcode_plain plain).mp one
    rw [List.append_nil] at others
    exact ⟨rest, eq_cons_of_getOp plain.1 read, others⟩
  · rintro ⟨rest, rfl, others⟩
    refine ⟨opcode, [], rest, [], getOp_bare plain.1 rest,
      (matchOpcode_plain plain).mpr ⟨rfl, rfl, rfl⟩, ?_⟩
    rwa [List.append_nil]

theorem matchTemplate_pubKeyHash {template script : CScript} {vSolutions found : List Valtype} :
    matchTemplate (OP_PUBKEYHASH :: template) script vSolutions = some found ↔
      ∃ hash push rest, IsHashPush hash push ∧ script = push ++ rest ∧
        matchTemplate template rest (vSolutions ++ [hash]) = some found := by
  rw [matchTemplate_cons (by decide)]
  constructor
  · rintro ⟨opcode1, hash, rest, solved, read, one, others⟩
    change (if hash.length = 20 then some [hash] else none) = some solved at one
    split at one
    · rename_i twenty
      cases one
      obtain ⟨push, pushed, rfl⟩ := isHashPush_of_getOp read twenty
      exact ⟨hash, push, rest, pushed, rfl, others⟩
    · cases one
  · rintro ⟨hash, push, rest, pushed, rfl, others⟩
    obtain ⟨opcode1, read⟩ := pushed.getOp rest
    exact ⟨opcode1, hash, rest, [hash], read, if_pos pushed.1, others⟩

theorem matchTemplate_coldStake {script : CScript} {found : List Valtype} :
    matchTemplate [OP_DUP, OP_HASH160, OP_ROT, OP_IF, OP_CHECKCOLDSTAKEVERIFY, OP_PUBKEYHASH,
        OP_ELSE, OP_PUBKEYHASH, OP_ENDIF, OP_EQUALVERIFY, OP_CHECKSIG] script [] = some found ↔
      ∃ stakerHash staker ownerHash owner, IsHashPush stakerHash staker ∧
        IsHashPush ownerHash owner ∧ script = coldStakeScript staker owner ∧
        found = [stakerHash, ownerHash] := by
  simp only [matchTemplate_plain (by decide : IsPlain OP_DUP),
    matchTemplate_plain (by decide : IsPlain OP_HASH160),
    matchTemplate_plain (by decide : IsPlain OP_ROT),
    matchTemplate_plain (by decide : IsPlain OP_IF),
    matchTemplate_plain (by decide : IsPlain OP_CHECKCOLDSTAKEVERIFY),
    matchTemplate_plain (by decide : IsPlain OP_ELSE),
    matchTemplate_plain (by decide : IsPlain OP_ENDIF),
    matchTemplate_plain (by decide : IsPlain OP_EQUALVERIFY),
    matchTemplate_plain (by decide : IsPlain OP_CHECKSIG),
    matchTemplate_pubKeyHash, matchTemplate_nil]
  constructor
  · rintro ⟨_, rfl, _, rfl, _, rfl, _, rfl, _, rfl, stakerHash, staker, _, isStaker, rfl, _, rfl,
      ownerHash, owner, _, isOwner, rfl, _, rfl, _, rfl, _, rfl, rfl, rfl⟩
    exact ⟨stakerHash, staker, ownerHash, owner, isStaker, isOwner, rfl, rfl⟩
  · rintro ⟨stakerHash, staker, ownerHash, owner, isStaker, isOwner, rfl, rfl⟩
    exact ⟨_, rfl, _, rfl, _, rfl, _, rfl, _, rfl, stakerHash, staker, _, isStaker, rfl, _, rfl,
      ownerHash, owner, _, isOwner, rfl, _, rfl, _, rfl, _, rfl, rfl, rfl⟩

theorem matchTemplate_bare {opcode first : UInt8} (single : opcode ≠ OP_PUBKEYS)
    (high : 0x4e < first) (template rest : CScript) (vSolutions : List Valtype) :
    matchTemplate (opcode :: template) (first :: rest) vSolutions =
      (matchOpcode opcode first []).bind fun found =>
        matchTemplate template rest (vSolutions ++ found) := by
  rw [matchTemplate]
  simp only [getOp_bare high, if_neg single]

end Solver

open Solver

/-- **What `Solver` calls cold staking.** The type is `TX_COLDSTAKE` exactly for the opcodes of
the template around two pushes of twenty bytes, each in any encoding. -/
theorem solver_coldStake {script : CScript} {found : List Valtype} :
    solver script = some (.coldStake, found) ↔
      ∃ stakerHash staker ownerHash owner, IsHashPush stakerHash staker ∧
        IsHashPush ownerHash owner ∧ script = coldStakeScript staker owner ∧
        found = [stakerHash, ownerHash] := by
  rw [← matchTemplate_coldStake]
  constructor
  · intro solved
    unfold solver at solved
    split at solved
    case isTrue => cases solved
    split at solved
    case isTrue =>
      split at solved
      · cases solved
      · cases solved
    split at solved
    case isTrue => cases solved
    split at solved
    case h_1 => cases solved
    case h_2 type vSolutions matched =>
      split at solved
      · cases solved
      · cases solved
        obtain ⟨⟨type, template⟩, known, one⟩ := List.exists_of_findSome?_eq_some matched
        obtain ⟨solutions, compared, same⟩ := Option.map_eq_some_iff.mp one
        cases same
        simp only [templates, List.mem_cons, List.not_mem_nil, or_false] at known
        rcases known with same | same | same | same <;> cases same
        exact compared
  · intro matched
    obtain ⟨-, staker, -, owner, -, -, rfl, -⟩ := matchTemplate_coldStake.mp matched
    have key : matchTemplate [OP_PUBKEY, OP_CHECKSIG] (coldStakeScript staker owner) [] = none :=
      matchTemplate_bare (by decide) (by decide) _ _ _
    have keyHash : matchTemplate [OP_DUP, OP_HASH160, OP_PUBKEYHASH, OP_EQUALVERIFY, OP_CHECKSIG]
        (coldStakeScript staker owner) [] = none := by
      exact (matchTemplate_bare (by decide) (by decide) _ _ _).trans
        (matchTemplate_bare (by decide) (by decide) _ _ _)
    have multiSig : matchTemplate
        [OP_SMALLINTEGER, OP_PUBKEYS, OP_SMALLINTEGER, OP_CHECKMULTISIG]
        (coldStakeScript staker owner) [] = none :=
      matchTemplate_bare (by decide) (by decide) _ _ _
    have first : (coldStakeScript staker owner)[0]? = some OP_DUP := rfl
    have notScriptHash : (coldStakeScript staker owner).isPayToScriptHash = false := by
      simp [isPayToScriptHash, first, show ¬ OP_DUP = OP_HASH160 by decide]
    rw [solver, notScriptHash]
    simp only [templates, List.findSome?_cons, key, keyHash, multiSig, matched]
    rfl

/-! ## The two tests -/

/-- The length and the seven bytes `IsPayToColdStaking` looks at are those of the template. -/
def ReadInPlace (script : CScript) : Prop :=
  script.length = 51 ∧ script[2]? = some OP_ROT ∧ script[4]? = some OP_CHECKCOLDSTAKEVERIFY ∧
    script[5]? = some 0x14 ∧ script[27]? = some 0x14 ∧ script[49]? = some OP_EQUALVERIFY ∧
    script[50]? = some OP_CHECKSIG

/-- The opcodes of the template that `IsPayToColdStaking` does not look at are in place. -/
def UnreadInPlace (script : CScript) : Prop :=
  script[0]? = some OP_DUP ∧ script[1]? = some OP_HASH160 ∧ script[3]? = some OP_IF ∧
    script[26]? = some OP_ELSE ∧ script[48]? = some OP_ENDIF

def ShortPushes (script : CScript) : Prop :=
  ∃ stakerHash ownerHash : Valtype, stakerHash.length = 20 ∧ ownerHash.length = 20 ∧
    script = coldStakeScript (0x14 :: stakerHash) (0x14 :: ownerHash)

/-- The script is the template with at least one hash pushed through an `OP_PUSHDATA`. -/
def LongPushes (script : CScript) : Prop :=
  ∃ stakerPush ∈ hashPushes, ∃ ownerPush ∈ hashPushes, ∃ stakerHash ownerHash : Valtype,
    stakerHash.length = 20 ∧ ownerHash.length = 20 ∧
    ¬ (stakerPush = [0x14] ∧ ownerPush = [0x14]) ∧
    script = coldStakeScript (stakerPush ++ stakerHash) (ownerPush ++ ownerHash)

theorem solver_coldStake_iff (script : CScript) :
    (solver script).map Prod.fst = some .coldStake ↔ ShortPushes script ∨ LongPushes script := by
  have solved : (solver script).map Prod.fst = some .coldStake ↔
      ∃ found, solver script = some (.coldStake, found) := by
    rw [Option.map_eq_some_iff]
    exact ⟨fun ⟨⟨_, found⟩, same, type⟩ => ⟨found, by rw [same, ← type]⟩,
      fun ⟨found, same⟩ => ⟨_, same, rfl⟩⟩
  rw [solved]
  constructor
  · rintro ⟨found, same⟩
    obtain ⟨stakerHash, -, ownerHash, -, ⟨stakerTwenty, stakerPush, stakerKnown, rfl⟩,
      ⟨ownerTwenty, ownerPush, ownerKnown, rfl⟩, rfl, -⟩ := solver_coldStake.mp same
    by_cases short : stakerPush = [0x14] ∧ ownerPush = [0x14]
    · obtain ⟨rfl, rfl⟩ := short
      exact .inl ⟨stakerHash, ownerHash, stakerTwenty, ownerTwenty, rfl⟩
    · exact .inr ⟨stakerPush, stakerKnown, ownerPush, ownerKnown, stakerHash, ownerHash,
        stakerTwenty, ownerTwenty, short, rfl⟩
  · rintro (⟨stakerHash, ownerHash, stakerTwenty, ownerTwenty, rfl⟩ |
      ⟨stakerPush, stakerKnown, ownerPush, ownerKnown, stakerHash, ownerHash, stakerTwenty,
        ownerTwenty, -, rfl⟩)
    · exact ⟨_, solver_coldStake.mpr ⟨_, _, _, _, ⟨stakerTwenty, [0x14], by decide, rfl⟩,
        ⟨ownerTwenty, [0x14], by decide, rfl⟩, rfl, rfl⟩⟩
    · exact ⟨_, solver_coldStake.mpr ⟨_, _, _, _, ⟨stakerTwenty, stakerPush, stakerKnown, rfl⟩,
        ⟨ownerTwenty, ownerPush, ownerKnown, rfl⟩, rfl, rfl⟩⟩

theorem coldStakeScript_length (staker owner : CScript) :
    (coldStakeScript staker owner).length = 9 + staker.length + owner.length := by
  simp only [coldStakeScript, List.length_append, List.length_cons, List.length_nil]
  omega

theorem LongPushes.length {script : CScript} (long : LongPushes script) : 51 < script.length := by
  obtain ⟨stakerPush, stakerKnown, ownerPush, ownerKnown, stakerHash, ownerHash, stakerTwenty,
    ownerTwenty, notShort, rfl⟩ := long
  have pushLength : ∀ push ∈ hashPushes, push = [0x14] ∨ 1 < push.length := by decide
  have nonEmpty : ∀ push ∈ hashPushes, 0 < push.length := by decide
  rw [coldStakeScript_length, List.length_append, List.length_append, stakerTwenty, ownerTwenty]
  have stakerSome := nonEmpty _ stakerKnown
  have ownerSome := nonEmpty _ ownerKnown
  rcases pushLength _ stakerKnown with staker | staker
  · rcases pushLength _ ownerKnown with owner | owner
    · exact absurd ⟨staker, owner⟩ notShort
    · omega
  · omega

theorem isPayToColdStaking_iff (script : CScript) :
    script.isPayToColdStaking = true ↔ ReadInPlace script := by
  simp [isPayToColdStaking, ReadInPlace, and_assoc]

theorem shortPushes_iff (script : CScript) :
    ShortPushes script ↔ ReadInPlace script ∧ UnreadInPlace script := by
  constructor
  · rintro ⟨stakerHash, ownerHash, stakerTwenty, ownerTwenty, rfl⟩
    have fromElse : (coldStakeScript (0x14 :: stakerHash) (0x14 :: ownerHash)).drop 26 =
        OP_ELSE :: 0x14 :: (ownerHash ++ [OP_ENDIF, OP_EQUALVERIFY, OP_CHECKSIG]) := by
      exact List.drop_left' stakerTwenty
    have fromEndIf : (coldStakeScript (0x14 :: stakerHash) (0x14 :: ownerHash)).drop 48 =
        [OP_ENDIF, OP_EQUALVERIFY, OP_CHECKSIG] := by
      rw [show 48 = 26 + 22 from rfl, ← List.drop_drop, fromElse]
      exact List.drop_left' ownerTwenty
    have atElse (index : Nat) :
        (coldStakeScript (0x14 :: stakerHash) (0x14 :: ownerHash))[26 + index]? =
          (OP_ELSE :: 0x14 :: (ownerHash ++ [OP_ENDIF, OP_EQUALVERIFY, OP_CHECKSIG]))[index]? := by
      rw [← fromElse, List.getElem?_drop]
    have atEndIf (index : Nat) :
        (coldStakeScript (0x14 :: stakerHash) (0x14 :: ownerHash))[48 + index]? =
          [OP_ENDIF, OP_EQUALVERIFY, OP_CHECKSIG][index]? := by
      rw [← fromEndIf, List.getElem?_drop]
    refine ⟨⟨?_, rfl, rfl, rfl, atElse 1, atEndIf 1, atEndIf 2⟩, rfl, rfl, rfl, atElse 0, atEndIf 0⟩
    rw [coldStakeScript_length, List.length_cons, List.length_cons, stakerTwenty, ownerTwenty]
  · rintro ⟨⟨length, rot, verify, staker, owner, equal, sig⟩, dup, hash160, ifAt, elseAt, endIf⟩
    refine ⟨(script.drop 6).take 20, (script.drop 28).take 20, by simp [length], by simp [length],
      ?_⟩
    have front : script = OP_DUP :: OP_HASH160 :: OP_ROT :: OP_IF :: OP_CHECKCOLDSTAKEVERIFY ::
        0x14 :: script.drop 6 := by
      rw [← drop_of_getElem? staker, ← drop_of_getElem? verify, ← drop_of_getElem? ifAt,
        ← drop_of_getElem? rot, ← drop_of_getElem? hash160, ← drop_of_getElem? dup, List.drop_zero]
    have middle : script.drop 6 = (script.drop 6).take 20 ++ OP_ELSE :: 0x14 :: script.drop 28 := by
      rw [← drop_of_getElem? owner, ← drop_of_getElem? elseAt, ← List.drop_drop (i := 20) (j := 6),
        List.take_append_drop]
    have ending : script.drop 28 =
        (script.drop 28).take 20 ++ [OP_ENDIF, OP_EQUALVERIFY, OP_CHECKSIG] := by
      rw [← List.drop_eq_nil_of_le (Nat.le_of_eq length), ← drop_of_getElem? sig,
        ← drop_of_getElem? equal, ← drop_of_getElem? endIf, ← List.drop_drop (i := 20) (j := 28),
        List.take_append_drop]
    calc script
        = OP_DUP :: OP_HASH160 :: OP_ROT :: OP_IF :: OP_CHECKCOLDSTAKEVERIFY :: 0x14 ::
            ((script.drop 6).take 20 ++ OP_ELSE :: 0x14 :: script.drop 28) := by
          rw [← middle, ← front]
      _ = OP_DUP :: OP_HASH160 :: OP_ROT :: OP_IF :: OP_CHECKCOLDSTAKEVERIFY :: 0x14 ::
            ((script.drop 6).take 20 ++ OP_ELSE :: 0x14 ::
              ((script.drop 28).take 20 ++ [OP_ENDIF, OP_EQUALVERIFY, OP_CHECKSIG])) := by
          rw [← ending]
      _ = coldStakeScript (0x14 :: (script.drop 6).take 20)
            (0x14 :: (script.drop 28).take 20) := rfl

/-- **Where the two tests agree.** `IsPayToColdStaking` and `Solver` give the same answer exactly
for the scripts that neither pass the fast test with a wrong opcode at a position it does not
read, nor push a hash of the template through an `OP_PUSHDATA`. -/
theorem isPayToColdStaking_agrees_iff (script : CScript) :
    (script.isPayToColdStaking = true ↔ (solver script).map Prod.fst = some .coldStake) ↔
      (ReadInPlace script → UnreadInPlace script) ∧ ¬ LongPushes script := by
  have tooLong : LongPushes script → ¬ ReadInPlace script := fun long inPlace =>
    Nat.ne_of_gt long.length inPlace.1
  rw [isPayToColdStaking_iff, solver_coldStake_iff, shortPushes_iff]
  constructor
  · intro agree
    refine ⟨fun fast => ?_, fun long => tooLong long (agree.mpr (.inr long))⟩
    rcases agree.mp fast with short | long
    · exact short.2
    · exact absurd fast (tooLong long)
  · rintro ⟨inPlace, notLong⟩
    exact ⟨fun fast => .inl ⟨fast, inPlace fast⟩, fun template =>
      template.elim And.left fun long => absurd long notLong⟩

/-- A script of zeros around the seven bytes passes the fast test and has no standard type. -/
theorem not_agrees_zeros :
    ¬ ∀ script : CScript, script.isPayToColdStaking = true ↔
      (solver script).map Prod.fst = some .coldStake := by
  intro agree
  let zeros : CScript := [0, 0, OP_ROT, 0, OP_CHECKCOLDSTAKEVERIFY, 0x14] ++
    List.replicate 21 0 ++ [0x14] ++ List.replicate 21 0 ++ [OP_EQUALVERIFY, OP_CHECKSIG]
  have fast : zeros.isPayToColdStaking = true := by decide
  exact absurd ((agree zeros).mp fast) (by decide +kernel)

end DogeCash
