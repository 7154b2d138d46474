import DogeCash.Script.ColdStakeTemplate
import DogeCash.Script.SolverReads

/-! # Where `Solver` stays in range

Comparing a script with a template stays in range, and the checks for multisig find the numbers
that they read among the solutions. What is left is the data of a zerocoin mint, which lies behind
the end of a script that is a single byte. On scripts of less than 2^32 bytes the reads are all
that sets `solverRead` apart from `solver`.
-/

namespace DogeCash

open Op CScript

def IsHuge (script : CScript) : Prop := 2 ^ 32 ≤ script.length

def Agrees {α : Type} (script : CScript) (run : ScriptRun (Option α)) (expected : Option α) : Prop :=
  run = .ok expected ∨ IsHuge script ∧ run = .ok none

theorem Agrees.of_suffix {α : Type} {script rest : CScript} {run : ScriptRun (Option α)}
    {expected : Option α} (shorter : rest.length ≤ script.length)
    (agrees : Agrees rest run expected) : Agrees script run expected :=
  agrees.imp_right fun huge => ⟨huge.1.trans shorter, huge.2⟩

namespace CScript

theorem getOp2_cases (pc : CScript) :
    (∃ left, getOp2 pc = .ok (opFailed left) ∧ (IsHuge pc ∨ getOp pc = none)) ∨
      ∃ opcode vch left, getOp2 pc = .ok ⟨true, opcode, vch, left⟩ ∧
        getOp pc = some (opcode, vch, left) := by
  obtain ⟨read, ends, outcome⟩ := getOp2_eq pc
  rcases outcome with ⟨left, rfl, none⟩ | ⟨opcode, vch, left, rfl, plain⟩
  · exact Or.inl ⟨left, ends, (le_or_gt (2 ^ 32) pc.length).imp_right none⟩
  · exact Or.inr ⟨opcode, vch, left, ends, plain⟩

theorem getOp2_bare {opcode : UInt8} (high : 0x4e < opcode) (pc : CScript) :
    getOp2 (opcode :: pc) = .ok ⟨true, opcode, [], pc⟩ := by
  have steps : getOp2 (opcode :: pc) =
      if 0x4e < opcode then .ok ⟨true, opcode, [], pc⟩
      else if opcode < 0x4c then readOperand opcode opcode.toNat pc
      else if opcode = 0x4c then readSize opcode 1 pc
      else if opcode = 0x4d then readSize opcode 2 pc
      else readSize opcode 4 pc := rfl
  rw [steps, if_pos high]

theorem isPushOnlyRead_eq {fuel : ℕ} {pc : CScript} (enough : pc.length ≤ fuel) :
    ∃ pushes, isPushOnlyRead pc = .ok pushes ∧ (IsHuge pc ∨ pushes = isPushOnlyFrom fuel pc) := by
  rw [isPushOnlyRead]
  induction fuel generalizing pc with
  | zero =>
    obtain rfl := List.length_eq_zero_iff.mp (Nat.le_zero.mp enough)
    exact ⟨true, loopWithin_of_done rfl, Or.inr rfl⟩
  | succ fuel ih =>
    cases pc with
    | nil => exact ⟨true, loopWithin_of_done rfl, Or.inr rfl⟩
    | cons first rest =>
      have step : isPushOnlyRound (first :: rest) = getOp2 (first :: rest) >>= fun read =>
          if read.fRet = false then .ok (.inr false)
          else if 0x60 < read.opcodeRet then .ok (.inr false)
          else .ok (.inl read.pc) := rfl
      rcases getOp2_cases (first :: rest) with ⟨left, ends, none⟩ | ⟨opcode, vch, left, ends, plain⟩
      · rw [ends] at step
        refine ⟨false, loopWithin_of_done step, none.imp_right fun none => ?_⟩
        simp only [isPushOnlyFrom, none]
      · rw [ends] at step
        have steps : isPushOnlyFrom (fuel + 1) (first :: rest) =
            if 0x60 < opcode then false else isPushOnlyFrom fuel left := by
          simp only [isPushOnlyFrom, plain]
        rw [steps]
        change _ = if 0x60 < opcode then _ else _ at step
        by_cases high : 0x60 < opcode
        · rw [if_pos high] at step
          exact ⟨false, loopWithin_of_done step, Or.inr (if_pos high).symm⟩
        · rw [if_neg high] at step
          have less := getOp_length plain
          obtain ⟨pushes, ends, same⟩ := ih (Nat.lt_succ_iff.mp (less.trans_le enough))
          rw [loopWithin_of_next step]
          refine ⟨pushes, ends, same.imp (fun huge => huge.trans less.le) fun same => ?_⟩
          rw [same]
          exact (if_neg high).symm

end CScript

namespace Solver

theorem pubKeysLoop_eq {fuel : ℕ} {read : ReadOp} (enough : read.pc.length < fuel)
    (vSolutions : List Valtype) :
    ∃ after found, pubKeysLoop (read, vSolutions) = .ok (after, found) ∧
      ((found, after.opcodeRet, after.vchRet, after.pc) =
          collectPubKeys fuel (read.opcodeRet, read.vchRet, read.pc) vSolutions ∨
        (after.opcodeRet = OP_INVALIDOPCODE ∧ after.vchRet = []) ∧
          (IsHuge read.pc ∨ ∃ others left,
            collectPubKeys fuel (read.opcodeRet, read.vchRet, read.pc) vSolutions =
              (others, OP_INVALIDOPCODE, [], left))) := by
  rw [pubKeysLoop]
  induction fuel generalizing read vSolutions with
  | zero => exact absurd enough (Nat.not_lt_zero _)
  | succ fuel ih =>
    by_cases sized : isPubKeySized read.vchRet = true
    · have step : pubKeysRound (read, vSolutions) = getOp2 read.pc >>= fun next =>
          if next.fRet = false then .ok (.inr (next, vSolutions ++ [read.vchRet]))
          else .ok (.inl (next, vSolutions ++ [read.vchRet])) := if_pos sized
      rcases getOp2_cases read.pc with ⟨left, ends, none⟩ | ⟨opcode, vch, left, ends, plain⟩
      · rw [ends] at step
        refine ⟨_, _, loopWithin_of_done step, Or.inr ⟨⟨rfl, rfl⟩, none.imp_right fun none => ?_⟩⟩
        refine ⟨vSolutions ++ [read.vchRet], read.pc, ?_⟩
        rw [collectPubKeys, if_pos sized, none]
      · rw [ends] at step
        have less := getOp_length plain
        have lower : (ReadOp.mk true opcode vch left).pc.length < fuel :=
          less.trans_le (Nat.lt_succ_iff.mp enough)
        obtain ⟨after, found, ends, same⟩ := ih lower (vSolutions ++ [read.vchRet])
        rw [loopWithin_of_next step, collectPubKeys, if_pos sized, plain]
        exact ⟨after, found, ends, same.imp_right fun failed =>
          ⟨failed.1, failed.2.imp_left fun huge => huge.trans less.le⟩⟩
    · have step : pubKeysRound (read, vSolutions) = .ok (.inr (read, vSolutions)) := if_neg sized
      rw [loopWithin_of_done step, collectPubKeys, if_neg sized]
      exact ⟨_, _, rfl, Or.inl rfl⟩

def afterMatch (pc1 pc2 : CScript) (vSolutions : List Valtype) :
    Option (List Valtype) → CompareState ⊕ Option (List Valtype)
  | none => .inr none
  | some found => .inl (pc1, pc2, vSolutions ++ found)

theorem matchRead_eq (read1 : ReadOp) (opcode2 : UInt8) (pc2 : CScript) (vSolutions : List Valtype) :
    matchRead read1 ⟨true, opcode2, [], pc2⟩ vSolutions =
      .ok (afterMatch read1.pc pc2 vSolutions
        (matchOpcode opcode2 read1.opcodeRet read1.vchRet)) := by
  unfold matchRead matchOpcode
  by_cases key : opcode2 = OP_PUBKEY
  · rw [if_pos key, if_pos key]
    have sized : isPubKeySized read1.vchRet = true ↔
        ¬(read1.vchRet.length < 33 ∨ 65 < read1.vchRet.length) := by
      rw [isPubKeySized, Bool.and_eq_true, decide_eq_true_iff, decide_eq_true_iff, not_or, not_lt,
        not_lt]
    by_cases fits : isPubKeySized read1.vchRet = true
    · rw [if_neg (sized.mp fits), if_pos fits]
      rfl
    · rw [if_pos (not_not.mp (sized.not.mp fits)), if_neg fits]
      rfl
  rw [if_neg key, if_neg key]
  by_cases hash : opcode2 = OP_PUBKEYHASH
  · rw [if_pos hash, if_pos hash, ite_not]
    split_ifs <;> rfl
  rw [if_neg hash, if_neg hash]
  by_cases number : opcode2 = OP_SMALLINTEGER
  · rw [if_pos number, if_pos number, decodeOP_N]
    by_cases zero : read1.opcodeRet = 0
    · rw [if_pos (Or.inl zero), if_pos zero, if_pos zero]
      rfl
    by_cases small : 0x51 ≤ read1.opcodeRet ∧ read1.opcodeRet ≤ 0x60
    · rw [if_pos (Or.inr small), if_neg zero, if_pos small, if_neg zero, if_pos small]
      rfl
    · rw [if_neg (not_or.mpr ⟨zero, small⟩), if_neg zero, if_neg small]
      rfl
  rw [if_neg number, if_neg number]
  by_cases same : read1.opcodeRet = opcode2 ∧ read1.vchRet = []
  · rw [if_neg (not_or.mpr ⟨not_not.mpr same.1, not_not.mpr same.2⟩), if_pos same]
    rfl
  · rw [if_pos (not_and_or.mp same), if_neg same]
    rfl

theorem matchOpcode_invalid {opcode2 : UInt8} (valid : opcode2 ≠ OP_INVALIDOPCODE) :
    matchOpcode opcode2 OP_INVALIDOPCODE [] = none := by
  have plain : ¬(OP_INVALIDOPCODE = opcode2 ∧ ([] : Valtype) = []) := fun same => valid same.1.symm
  unfold matchOpcode
  split_ifs <;> first | rfl | contradiction

def InTemplate (opcode : UInt8) : Prop := 0x4e < opcode ∧ opcode ≠ OP_INVALIDOPCODE

instance (opcode : UInt8) : Decidable (InTemplate opcode) := inferInstanceAs (Decidable (_ ∧ _))

variable {state : CompareState} {vSolutions : List Valtype} {opcode1 : UInt8} {vch1 : Valtype}

theorem agrees_of_afterMatch {script pc1 pc2 : CScript} {matched : Option (List Valtype)}
    (step : compareRound state = .ok (afterMatch pc1 pc2 vSolutions matched))
    (shorter : pc1.length ≤ script.length)
    (later : ∀ vSolutions, Agrees pc1 (compare (pc1, pc2, vSolutions))
      (matchTemplate pc2 pc1 vSolutions)) :
    Agrees script (compare state)
      (matched.bind fun found => matchTemplate pc2 pc1 (vSolutions ++ found)) := by
  cases matched with
  | none => exact Or.inl (loopWithin_of_done step)
  | some found =>
    rw [compare, loopWithin_of_next step]
    exact (later (vSolutions ++ found)).of_suffix shorter

theorem compareRound_cons (script : CScript) (opcode2 : UInt8) (template : CScript)
    (vSolutions : List Valtype) :
    compareRound (script, opcode2 :: template, vSolutions) = getOp2 script >>= fun read1 =>
      if read1.fRet = false then .ok (.inr none)
      else getOp2 (opcode2 :: template) >>= fun read2 =>
        if read2.fRet = false then .ok (.inr none)
        else if read2.opcodeRet = OP_PUBKEYS then
          pubKeysLoop (read1, vSolutions) >>= fun outcome =>
            getOp2 read2.pc >>= fun read2 =>
              if read2.fRet = false then .ok (.inr none)
              else matchRead outcome.1 read2 outcome.2
        else matchRead read1 read2 vSolutions :=
  if_neg fun ended => absurd ended.2 (Nat.succ_ne_zero _)

theorem collectPubKeys_length (fuel : ℕ) (opcode : UInt8) (vch : Valtype) (rest : CScript)
    (vSolutions : List Valtype) :
    (collectPubKeys fuel (opcode, vch, rest) vSolutions).2.2.2.length ≤ rest.length := by
  induction fuel generalizing opcode vch rest vSolutions with
  | zero => exact le_rfl
  | succ fuel ih =>
    rw [collectPubKeys]
    split_ifs
    · cases read : getOp rest with
      | none => exact le_rfl
      | some next => exact (ih _ _ _ _).trans (getOp_length read).le
    · exact le_rfl

/-- The comparison goes on with the opcode that follows `OP_PUBKEYS`. -/
theorem agrees_of_pubKeys {script left template : CScript}
    (known : ∀ opcode ∈ template, InTemplate opcode) (less : left.length < script.length)
    (later : ∀ opcode2 rest, template = opcode2 :: rest → ∀ pc1 vSolutions,
      Agrees pc1 (compare (pc1, rest, vSolutions)) (matchTemplate rest pc1 vSolutions))
    (step : compareRound state =
      pubKeysLoop (⟨true, opcode1, vch1, left⟩, vSolutions) >>= fun outcome =>
        getOp2 template >>= fun read2 =>
          if read2.fRet = false then .ok (.inr none) else matchRead outcome.1 read2 outcome.2) :
    Agrees script (compare state)
      (match template, collectPubKeys script.length (opcode1, vch1, left) vSolutions with
        | [], _ => none
        | opcode2 :: template, (vSolutions, opcode1, vch1, rest) =>
          (matchOpcode opcode2 opcode1 vch1).bind fun found =>
            matchTemplate template rest (vSolutions ++ found)) := by
  have enough : (ReadOp.mk true opcode1 vch1 left).pc.length < script.length := less
  obtain ⟨after, found, ends, outcome⟩ := pubKeysLoop_eq enough vSolutions
  have shorter := collectPubKeys_length script.length opcode1 vch1 left vSolutions
  rw [ends] at step
  cases template with
  | nil => exact Or.inl (loopWithin_of_done step)
  | cons opcode2 template =>
    obtain ⟨here, -⟩ := List.forall_mem_cons.mp known
    rw [getOp2_bare here.1] at step
    change compareRound _ = matchRead after ⟨true, opcode2, [], template⟩ found at step
    rw [matchRead_eq] at step
    rcases outcome with same | ⟨⟨opcode, data⟩, cause⟩
    · rw [← same] at shorter ⊢
      exact agrees_of_afterMatch step (shorter.trans less.le) (later _ _ rfl after.pc)
    · rw [opcode, data, matchOpcode_invalid here.2] at step
      rw [compare, loopWithin_of_done step]
      rcases cause with huge | ⟨others, rest, same⟩
      · exact Or.inr ⟨huge.trans less.le, rfl⟩
      · rw [same]
        dsimp only
        rw [matchOpcode_invalid here.2]
        exact Or.inl rfl

theorem compare_agrees {template : CScript} (known : ∀ opcode ∈ template, InTemplate opcode)
    (script : CScript) (vSolutions : List Valtype) :
    Agrees script (compare (script, template, vSolutions))
      (matchTemplate template script vSolutions) := by
  induction bound : template.length using Nat.strongRecOn generalizing template script vSolutions with
  | ind size ih =>
    cases template with
    | nil =>
      cases script with
      | nil => exact Or.inl (loopWithin_of_done rfl)
      | cons first rest =>
        refine Or.inl ?_
        have step : compareRound (first :: rest, [], vSolutions) =
            getOp2 (first :: rest) >>= fun _ => .ok (.inr none) := by
          refine (if_neg fun ended => absurd ended.1 (Nat.succ_ne_zero _)).trans ?_
          refine congrArg (getOp2 (first :: rest) >>= ·) (funext fun read => ?_)
          exact ite_id _
        obtain ⟨read, ends, -⟩ := getOp2_eq (first :: rest)
        rw [ends] at step
        exact loopWithin_of_done step
    | cons opcode2 template =>
      obtain ⟨here, known⟩ := List.forall_mem_cons.mp known
      have step := compareRound_cons script opcode2 template vSolutions
      rw [getOp2_bare here.1] at step
      rw [matchTemplate]
      rcases getOp2_cases script with ⟨left, ends, none⟩ | ⟨opcode1, vch1, left, ends, plain⟩
      · rw [ends] at step
        rw [compare, loopWithin_of_done step]
        rcases none with huge | none
        · exact Or.inr ⟨huge, rfl⟩
        · rw [none]
          exact Or.inl rfl
      · rw [ends] at step
        rw [plain]
        have less := getOp_length plain
        change compareRound _ = if opcode2 = OP_PUBKEYS then _ else _ at step
        by_cases keys : opcode2 = OP_PUBKEYS
        · rw [if_pos keys] at step
          dsimp only
          rw [if_pos keys]
          refine agrees_of_pubKeys known less (fun next rest same => ?_) step
          subst same
          have shorter : rest.length < size := by
            rw [← bound, List.length_cons, List.length_cons]
            omega
          exact fun pc1 vSolutions => ih rest.length shorter
            (List.forall_mem_cons.mp known).2 pc1 vSolutions rfl
        · rw [if_neg keys, matchRead_eq] at step
          dsimp only
          rw [if_neg keys]
          exact agrees_of_afterMatch step less.le fun vSolutions =>
            ih _ (bound ▸ Nat.lt_succ_self _) known left vSolutions rfl

/-! ## The solutions of a multisig script -/

theorem matchOpcode_smallInteger {found : List Valtype}
    (matched : matchOpcode OP_SMALLINTEGER opcode1 vch1 = some found) : ∃ n, found = [[n]] := by
  change (if opcode1 = 0 then some [[0]]
    else if 0x51 ≤ opcode1 ∧ opcode1 ≤ 0x60 then some [[opcode1 - 0x50]] else none) = _ at matched
  split_ifs at matched
  · cases matched
    exact ⟨_, rfl⟩
  · cases matched
    exact ⟨_, rfl⟩

theorem collectPubKeys_append (fuel : ℕ) (read : UInt8 × Valtype × CScript)
    (vSolutions : List Valtype) :
    ∃ keys, (collectPubKeys fuel read vSolutions).1 = vSolutions ++ keys := by
  induction fuel generalizing read vSolutions with
  | zero => exact ⟨[], (List.append_nil _).symm⟩
  | succ fuel ih =>
    obtain ⟨-, vch, rest⟩ := read
    rw [collectPubKeys]
    split_ifs
    · cases getOp rest with
      | none => exact ⟨[vch], rfl⟩
      | some next =>
        obtain ⟨keys, same⟩ := ih next (vSolutions ++ [vch])
        exact ⟨vch :: keys, same.trans (List.append_assoc _ _ _)⟩
    · exact ⟨[], (List.append_nil _).symm⟩

theorem matchTemplate_multiSig {script : CScript}
    (matched : matchTemplate [OP_SMALLINTEGER, OP_PUBKEYS, OP_SMALLINTEGER, OP_CHECKMULTISIG] script
      [] = some vSolutions) : ∃ m keys n, vSolutions = [m] :: (keys ++ [[n]]) := by
  obtain ⟨opcode1, vch1, left, solved, -, number, matched⟩ :=
    (matchTemplate_cons (by decide)).mp matched
  obtain ⟨m, rfl⟩ := matchOpcode_smallInteger number
  rw [List.nil_append, matchTemplate] at matched
  cases read : getOp left with
  | none =>
    rw [read] at matched
    cases matched
  | some next =>
    obtain ⟨opcode1, vch1, rest⟩ := next
    rw [read] at matched
    obtain ⟨keys, same⟩ := collectPubKeys_append left.length (opcode1, vch1, rest) [[m]]
    obtain ⟨solved, last, matched⟩ := Option.bind_eq_some_iff.mp matched
    obtain ⟨n, rfl⟩ := matchOpcode_smallInteger last
    obtain ⟨tail, -, matched⟩ := (matchTemplate_plain (by decide)).mp matched
    obtain ⟨-, rfl⟩ := matchTemplate_nil.mp matched
    rw [same]
    exact ⟨m, keys, n, by simp⟩

theorem checkMultiSigRead_eq (m n : UInt8) (keys : List Valtype) :
    checkMultiSigRead ([m] :: (keys ++ [[n]])) = .ok (isValidMultiSig ([m] :: (keys ++ [[n]]))) := by
  have front : (readAt ([m] :: (keys ++ [[n]])) 0 : ScriptRun Valtype) = .ok [m] := rfl
  have back : (readAt ([m] :: (keys ++ [[n]])) (([m] :: (keys ++ [[n]])).length - 1) :
      ScriptRun Valtype) = .ok [n] := readAt_eq_ok.mpr (by simp)
  have first : numberOf (([m] :: (keys ++ [[n]])).head?) = m.toNat := rfl
  have last : numberOf (([m] :: (keys ++ [[n]])).getLast?) = n.toNat := by
    rw [← List.cons_append, List.getLast?_concat]
    rfl
  simp only [checkMultiSigRead, isValidMultiSig, front, back, first, last, UInt8.lt_iff_toNat_lt]
  rfl

/-! ## The templates -/

/-- What `Solver` makes of the templates that are left. -/
def firstMatch (script : CScript) (templates : List (TxnOutType × CScript)) :
    Option (TxnOutType × List Valtype) :=
  match templates.findSome? fun template =>
    (matchTemplate template.2 script []).map fun vSolutions => (template.1, vSolutions) with
  | none => none
  | some (type, vSolutions) =>
    if type = .multiSig ∧ isValidMultiSig vSolutions = false then none
    else some (type, vSolutions)

def IsTemplate (template : TxnOutType × CScript) : Prop :=
  (∀ opcode ∈ template.2, InTemplate opcode) ∧ (template.1 = .multiSig →
    template.2 = [OP_SMALLINTEGER, OP_PUBKEYS, OP_SMALLINTEGER, OP_CHECKMULTISIG])

instance (template : TxnOutType × CScript) : Decidable (IsTemplate template) :=
  inferInstanceAs (Decidable (_ ∧ _))

theorem isTemplate_templates : ∀ template ∈ templates, IsTemplate template := by decide +kernel

theorem scanTemplates_agrees {left : List (TxnOutType × CScript)}
    (known : ∀ template ∈ left, IsTemplate template) (script : CScript) :
    ∃ found, scanTemplates script left = .ok found ∧
      (IsHuge script ∨ found = firstMatch script left) := by
  induction left with
  | nil => exact ⟨none, rfl, Or.inr rfl⟩
  | cons template left ih =>
    obtain ⟨⟨opcodes, multiSig⟩, others⟩ := List.forall_mem_cons.mp known
    obtain ⟨type, script2⟩ := template
    have step : scanTemplates script ((type, script2) :: left) =
        compare (script, script2, []) >>= fun outcome =>
          match outcome with
          | none => scanTemplates script left
          | some vSolutions =>
            if type = .multiSig then checkMultiSigRead vSolutions >>= fun valid =>
              if valid = true then .ok (some (type, vSolutions)) else .ok none
            else .ok (some (type, vSolutions)) := rfl
    obtain ⟨found, ends, later⟩ := ih others
    rw [step]
    rcases compare_agrees opcodes script [] with same | ⟨huge, same⟩
    · rw [same]
      cases matched : matchTemplate script2 script [] with
      | none =>
        refine ⟨found, ends, later.imp_right fun same => same.trans ?_⟩
        rw [firstMatch, firstMatch, List.findSome?_cons, matched]
        rfl
      | some vSolutions =>
        have plain : firstMatch script ((type, script2) :: left) =
            if type = .multiSig ∧ isValidMultiSig vSolutions = false then none
            else some (type, vSolutions) := by
          rw [firstMatch, List.findSome?_cons, matched]
          rfl
        rw [plain]
        by_cases several : type = .multiSig
        · obtain rfl : script2 = _ := multiSig several
          obtain ⟨m, keys, n, rfl⟩ := matchTemplate_multiSig matched
          change ∃ found, (if type = .multiSig then _ else _) = _ ∧ _
          rw [if_pos several, checkMultiSigRead_eq]
          cases valid : isValidMultiSig ([m] :: (keys ++ [[n]])) with
          | false => exact ⟨none, rfl, Or.inr (if_pos ⟨several, rfl⟩).symm⟩
          | true =>
            exact ⟨_, rfl, Or.inr (if_neg fun bad => Bool.true_eq_false.mp bad.2).symm⟩
        · change ∃ found, (if type = .multiSig then _ else _) = _ ∧ _
          rw [if_neg several, if_neg fun both => several both.1]
          exact ⟨_, rfl, Or.inr rfl⟩
    · rw [same]
      exact ⟨found, ends, Or.inl huge⟩

end Solver

open Solver

/-! ## All of `Solver` -/

theorem isDataRead_eq (script : CScript) :
    ∃ data, isDataRead script = .ok data ∧ (IsHuge script ∨
      (data = true ↔ script.head? = some OP_RETURN ∧ isPushOnly script.tail = true)) := by
  cases script with
  | nil => exact ⟨false, rfl, Or.inr (by simp)⟩
  | cons first rest =>
    have step : isDataRead (first :: rest) =
        if first = OP_RETURN then isPushOnlyRead rest else .ok false := rfl
    rw [step]
    by_cases returns : first = OP_RETURN
    · obtain ⟨pushes, ends, same⟩ := isPushOnlyRead_eq (le_refl rest.length)
      rw [if_pos returns]
      refine ⟨pushes, ends, same.imp (fun huge => huge.trans (Nat.le_succ _)) fun same => ?_⟩
      rw [same, returns]
      exact (and_iff_right rfl).symm
    · rw [if_neg returns]
      refine ⟨false, rfl, Or.inr (iff_of_false Bool.false_ne_true fun data => ?_)⟩
      exact returns (Option.some.inj data.1)

/-- A script that is not a single `OP_ZEROCOINMINT` is solved within its bytes, and as `solver`
does unless it is huge. -/
theorem solverRead_agrees {script : CScript} (other : script ≠ [OP_ZEROCOINMINT]) :
    ∃ found, solverRead script = .ok found ∧ (IsHuge script ∨ found = solver script) := by
  rw [solverRead, solver]
  by_cases hash : script.isPayToScriptHash = true
  · have length : script.length = 23 := by
      rw [isPayToScriptHash, Bool.and_eq_true, Bool.and_eq_true, Bool.and_eq_true] at hash
      exact beq_iff_eq.mp hash.1.1.1
    rw [if_pos hash, if_pos hash, readUpTo_of_le (by omega)]
    refine ⟨some (.scriptHash, [(script.take 22).drop 2]), ?_, Or.inr ?_⟩
    · change readFrom (script.take 22) 2 >>= _ = _
      rw [readFrom_of_le (by rw [List.length_take]; omega)]
      rfl
    · rw [List.drop_take]
  rw [if_neg hash, if_neg hash]
  by_cases mint : script.isZerocoinMint = true
  · rw [if_pos mint, if_pos mint]
    by_cases long : 150 < script.length
    · rw [if_pos long, if_pos long]
      exact ⟨none, rfl, Or.inr rfl⟩
    · have two : 2 ≤ script.length := by
        cases script with
        | nil => cases mint
        | cons first rest =>
          cases rest with
          | nil => exact absurd (congrArg (fun byte => [byte])
              (Option.some.inj (beq_iff_eq.mp mint))) other
          | cons second rest => exact Nat.le_add_left 2 rest.length
      rw [if_neg long, if_neg long, readFrom_of_le two]
      exact ⟨_, rfl, Or.inr rfl⟩
  rw [if_neg mint, if_neg mint]
  obtain ⟨data, ends, same⟩ := isDataRead_eq script
  obtain ⟨found, scanned, matched⟩ := scanTemplates_agrees isTemplate_templates script
  rw [ends]
  change ∃ other, (if data = true then .ok (some (.nullData, [])) else
    scanTemplates script templates) = .ok other ∧
      (_ ∨ other =
        if script.head? = some OP_RETURN ∧ isPushOnly script.tail = true then some (.nullData, [])
        else firstMatch script templates)
  by_cases carries : data = true
  · rw [if_pos carries]
    exact ⟨_, rfl, same.imp_right fun same => (if_pos (same.mp carries)).symm⟩
  · rw [if_neg carries, scanned]
    refine ⟨found, rfl, ?_⟩
    rcases same with huge | same
    · exact Or.inl huge
    · rw [if_neg (same.not.mp carries)]
      exact matched

/-- **The reads of `Solver`.** They are in range on every script but the single byte
`OP_ZEROCOINMINT`. -/
theorem inBounds_solverRead_iff (script : CScript) :
    InBounds (solverRead script) ↔ script ≠ [OP_ZEROCOINMINT] := by
  constructor
  · rintro bounds rfl
    exact bounds rfl
  · intro other
    obtain ⟨found, ends, -⟩ := solverRead_agrees other
    rw [ends]
    exact inBounds_ok found

theorem solverRead_eq {script : CScript} (other : script ≠ [OP_ZEROCOINMINT])
    (short : script.length < 2 ^ 32) : solverRead script = .ok (solver script) := by
  obtain ⟨found, ends, same⟩ := solverRead_agrees other
  rw [ends, same.resolve_left (not_le.mpr short)]

end DogeCash
