import DogeCash.Primitives.Script

/-! # Reading a script

`GetOp` reads one instruction off the front of a script: an opcode and, for the
opcodes up to `OP_PUSHDATA4`, the bytes that follow it. What the interpreter does
with any other opcode is decided by the `switch` of `EvalScript`, whose branches
are the constructors of `Instruction`.
-/

namespace DogeCash

/-- `valtype`: an element of the stack. -/
abbrev Valtype := List UInt8

def fromLittleEndian : List UInt8 → Nat
  | [] => 0
  | byte :: rest => byte.toNat + 256 * fromLittleEndian rest

namespace CScript

theorem drop_of_getElem? {script : CScript} {index : Nat} {byte : UInt8}
    (there : script[index]? = some byte) : script.drop index = byte :: script.drop (index + 1) := by
  obtain ⟨inside, same⟩ := List.getElem?_eq_some_iff.mp there
  rw [List.drop_eq_getElem_cons inside, same]

/-- The bytes an opcode is followed by in `GetOp2`: `none` when there are too
few. -/
def takeData (size : Nat) (rest : CScript) : Option (Valtype × CScript) :=
  if rest.length < size then none else some (rest.take size, rest.drop size)

/-- `CScript::GetOp2`: opcode, data and what is left of the script. -/
def getOp : CScript → Option (UInt8 × Valtype × CScript)
  | [] => none
  | opcode :: rest =>
    let withData (size : Nat) (rest : CScript) :=
      (takeData size rest).map fun (data, rest) => (opcode, data, rest)
    if opcode < 0x4c then withData opcode.toNat rest
    else if opcode = 0x4c then
      match rest with
      | size :: rest => withData size.toNat rest
      | _ => none
    else if opcode = 0x4d then
      match rest with
      | low :: high :: rest => withData (fromLittleEndian [low, high]) rest
      | _ => none
    else if opcode = 0x4e then
      match rest with
      | a :: b :: c :: d :: rest => withData (fromLittleEndian [a, b, c, d]) rest
      | _ => none
    else some (opcode, [], rest)

variable {size : Nat} {rest left : CScript} {data : Valtype}

theorem takeData_eq_some :
    takeData size rest = some (data, left) ↔ data.length = size ∧ rest = data ++ left := by
  unfold takeData
  constructor
  · intro taken
    split at taken
    · cases taken
    · cases taken
      exact ⟨by rw [List.length_take]; omega, (List.take_append_drop size rest).symm⟩
  · rintro ⟨rfl, rfl⟩
    rw [if_neg (by rw [List.length_append]; omega), List.take_left, List.drop_left]

theorem takeData_length (taken : takeData size rest = some (data, left)) :
    left.length ≤ rest.length := by
  unfold takeData at taken
  split at taken
  · cases taken
  · cases taken
    rw [List.length_drop]
    omega

theorem getOp_length {script left : CScript} {opcode : UInt8}
    (read : getOp script = some (opcode, data, left)) : left.length < script.length := by
  have withData : ∀ {size : Nat} {rest : CScript} {first : UInt8},
      ((takeData size rest).map fun (data, rest) => (first, data, rest)) =
        some (opcode, data, left) → left.length ≤ rest.length := by
    intro size rest first mapped
    obtain ⟨⟨taken, after⟩, ok, same⟩ := Option.map_eq_some_iff.mp mapped
    cases same
    exact takeData_length ok
  cases script with
  | nil => cases read
  | cons first rest =>
    simp only [getOp] at read
    split at read
    · exact Nat.lt_succ_of_le (withData read)
    · split at read
      · split at read
        · have := withData read
          simp only [List.length_cons]
          omega
        · cases read
      · split at read
        · split at read
          · have := withData read
            simp only [List.length_cons]
            omega
          · cases read
        · split at read
          · split at read
            · have := withData read
              simp only [List.length_cons]
              omega
            · cases read
          · cases read
            simp

/-- The loop of `CScript::IsPushOnly`; `fuel` bounds the number of instructions. -/
def isPushOnlyFrom : Nat → CScript → Bool
  | _, [] => true
  | 0, _ => false
  | fuel + 1, script =>
    match getOp script with
    | none => false
    | some (opcode, _, rest) => if 0x60 < opcode then false else isPushOnlyFrom fuel rest

/-- `CScript::IsPushOnly`; a script has at most as many instructions as bytes. -/
def isPushOnly (script : CScript) : Bool := isPushOnlyFrom script.length script

/-- `CScript << std::vector<unsigned char>` on an empty script: the push of some
bytes. -/
def pushData (data : Valtype) : CScript :=
  if data.length < 0x4c then UInt8.ofNat data.length :: data
  else if data.length ≤ 0xff then 0x4c :: UInt8.ofNat data.length :: data
  else if data.length ≤ 0xffff then
    0x4d :: UInt8.ofNat data.length :: UInt8.ofNat (data.length / 2 ^ 8) :: data
  else
    0x4e :: UInt8.ofNat data.length :: UInt8.ofNat (data.length / 2 ^ 8) ::
      UInt8.ofNat (data.length / 2 ^ 16) :: UInt8.ofNat (data.length / 2 ^ 24) :: data

/-- The inner loop of `CScript::FindAndDelete`: skip the occurrences in front. -/
def skipOccurrences (pattern : CScript) : Nat → CScript → CScript
  | 0, script => script
  | fuel + 1, script =>
    if pattern.isPrefixOf script then skipOccurrences pattern fuel (script.drop pattern.length)
    else script

/-- The outer loop of `CScript::FindAndDelete`: skip the occurrences in front, then
keep one instruction. -/
def deleteOccurrences (pattern : CScript) : Nat → CScript → CScript
  | 0, script => script
  | fuel + 1, script =>
    let kept := skipOccurrences pattern script.length script
    match getOp kept with
    | none => kept
    | some (_, _, rest) =>
      kept.take (kept.length - rest.length) ++ deleteOccurrences pattern fuel rest

/-- `CScript::FindAndDelete`, the script afterwards. -/
def findAndDelete (script pattern : CScript) : CScript :=
  if pattern.isEmpty then script else deleteOccurrences pattern (script.length + 1) script

end CScript

/-- The opcodes with one operand that is a number. -/
inductive UnaryOp where
  | add1 | sub1 | negate | abs | not | notEqual0

/-- The opcodes with two operands that are numbers. -/
inductive BinaryOp where
  | add | sub | boolAnd | boolOr | numEqual | numEqualVerify | numNotEqual | lessThan | greaterThan
  | lessThanOrEqual | greaterThanOrEqual | min | max
  deriving DecidableEq

inductive HashOp where
  | ripemd160 | sha1 | sha256 | hash160 | hash256

/-- The branches of the `switch` in `EvalScript`. -/
inductive Instruction where
  | pushNumber (value : Int)
  | nop
  | checkLockTimeVerify
  | upgradableNop
  | ifOp (negated : Bool)
  | elseOp
  | endIf
  | verify
  | returnOp
  | toAltStack
  | fromAltStack
  | drop2
  | dup2
  | dup3
  | over2
  | rot2
  | swap2
  | ifDup
  | depth
  | drop
  | dup
  | nip
  | over
  | pick (roll : Bool)
  | rot
  | swap
  | tuck
  | size
  | equal (verify : Bool)
  | unary (op : UnaryOp)
  | binary (op : BinaryOp)
  | within
  | hash (op : HashOp)
  | codeSeparator
  | checkSig (verify : Bool)
  | checkMultiSig (verify : Bool)
  | checkColdStakeVerify
  | badOpcode

/-- The branch an opcode takes, by the values of `opcodetype`. -/
def Instruction.ofOpcode (opcode : UInt8) : Instruction :=
  if opcode = 0x4f ∨ (0x51 ≤ opcode ∧ opcode ≤ 0x60) then .pushNumber ((opcode.toNat : Int) - 0x50)
  else
    match opcode.toNat with
    | 0x61 => .nop
    | 0x63 => .ifOp false
    | 0x64 => .ifOp true
    | 0x67 => .elseOp
    | 0x68 => .endIf
    | 0x69 => .verify
    | 0x6a => .returnOp
    | 0x6b => .toAltStack
    | 0x6c => .fromAltStack
    | 0x6d => .drop2
    | 0x6e => .dup2
    | 0x6f => .dup3
    | 0x70 => .over2
    | 0x71 => .rot2
    | 0x72 => .swap2
    | 0x73 => .ifDup
    | 0x74 => .depth
    | 0x75 => .drop
    | 0x76 => .dup
    | 0x77 => .nip
    | 0x78 => .over
    | 0x79 => .pick false
    | 0x7a => .pick true
    | 0x7b => .rot
    | 0x7c => .swap
    | 0x7d => .tuck
    | 0x82 => .size
    | 0x87 => .equal false
    | 0x88 => .equal true
    | 0x8b => .unary .add1
    | 0x8c => .unary .sub1
    | 0x8f => .unary .negate
    | 0x90 => .unary .abs
    | 0x91 => .unary .not
    | 0x92 => .unary .notEqual0
    | 0x93 => .binary .add
    | 0x94 => .binary .sub
    | 0x9a => .binary .boolAnd
    | 0x9b => .binary .boolOr
    | 0x9c => .binary .numEqual
    | 0x9d => .binary .numEqualVerify
    | 0x9e => .binary .numNotEqual
    | 0x9f => .binary .lessThan
    | 0xa0 => .binary .greaterThan
    | 0xa1 => .binary .lessThanOrEqual
    | 0xa2 => .binary .greaterThanOrEqual
    | 0xa3 => .binary .min
    | 0xa4 => .binary .max
    | 0xa5 => .within
    | 0xa6 => .hash .ripemd160
    | 0xa7 => .hash .sha1
    | 0xa8 => .hash .sha256
    | 0xa9 => .hash .hash160
    | 0xaa => .hash .hash256
    | 0xab => .codeSeparator
    | 0xac => .checkSig false
    | 0xad => .checkSig true
    | 0xae => .checkMultiSig false
    | 0xaf => .checkMultiSig true
    | 0xb1 => .checkLockTimeVerify
    | 0xb0 | 0xb2 | 0xb3 | 0xb4 | 0xb5 | 0xb6 | 0xb7 | 0xb8 | 0xb9 => .upgradableNop
    | 0xd1 => .checkColdStakeVerify
    | _ => .badOpcode

/-- The disabled opcodes `OP_CAT`, `OP_SUBSTR`, `OP_LEFT`, `OP_RIGHT`, `OP_INVERT`,
`OP_AND`, `OP_OR`, `OP_XOR`, `OP_2MUL`, `OP_2DIV`, `OP_MUL`, `OP_DIV`, `OP_MOD`,
`OP_LSHIFT` and `OP_RSHIFT`. -/
def disabledOpcodes : List UInt8 :=
  [0x7e, 0x7f, 0x80, 0x81, 0x83, 0x84, 0x85, 0x86, 0x8d, 0x8e, 0x95, 0x96, 0x97, 0x98, 0x99]

end DogeCash
