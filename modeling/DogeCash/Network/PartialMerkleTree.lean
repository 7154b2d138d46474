import DogeCash.Foundation.PackedBits
import DogeCash.Foundation.PrunedTree
import DogeCash.Primitives.Unserialize
import DogeCash.Validation.MerkleMutation

/-! # Partial merkle trees

`CPartialMerkleTree` gives a light client some of the transaction ids of a block. One traversal
of the tree writes a bit for each subtree and the hashes of those it does not enter, and another
one reads them again. What is written is a pruned tree, and every traversal that does not fail
has read one.
-/

namespace DogeCash

open List (append_assoc cons_append getD_eq_getElem)

structure CPartialMerkleTree where
  nTransactions : UInt32
  vBits : List Bool
  vHash : List UInt256
  fBad : Bool
  deriving DecidableEq

namespace CPartialMerkleTree

open MerkleTree

def calcTreeWidth (nTransactions : UInt32) (height : ℕ) : ℕ :=
  (nTransactions.toNat + 2 ^ height - 1) % 2 ^ 32 / 2 ^ height

/-- The loop for the height of the tree, with the number of heights that a shift still
allows. -/
def treeHeight (nTransactions : UInt32) : ℕ → ℕ → Option ℕ
  | 0, _ => none
  | left + 1, nHeight =>
    if 1 < calcTreeWidth nTransactions nHeight then treeHeight nTransactions left (nHeight + 1)
    else some nHeight

section Traversals

variable (hash : UInt256 → UInt256 → UInt256)

def calcHash (nTransactions : UInt32) (vTxid : List UInt256) : ℕ → ℕ → UInt256
  | 0, pos => vTxid.getD pos default
  | height + 1, pos =>
    let left := calcHash nTransactions vTxid height (pos * 2)
    let right :=
      if pos * 2 + 1 < calcTreeWidth nTransactions height then
        calcHash nTransactions vTxid height (pos * 2 + 1)
      else left
    hash left right

def parentOfMatch (nTransactions : UInt32) (vMatch : List Bool) (height pos : ℕ) : Bool :=
  (List.range' (pos * 2 ^ height) (2 ^ height)).any fun p =>
    decide (p < nTransactions.toNat) && vMatch.getD p false

def traverseAndBuild (vTxid : List UInt256) (vMatch : List Bool) :
    ℕ → ℕ → CPartialMerkleTree → CPartialMerkleTree
  | 0, pos, tree =>
    { tree with
      vBits := tree.vBits ++ [parentOfMatch tree.nTransactions vMatch 0 pos]
      vHash := tree.vHash ++ [calcHash hash tree.nTransactions vTxid 0 pos] }
  | height + 1, pos, tree =>
    let fParentOfMatch := parentOfMatch tree.nTransactions vMatch (height + 1) pos
    let stored := { tree with vBits := tree.vBits ++ [fParentOfMatch] }
    if !fParentOfMatch then
      { stored with
        vHash := tree.vHash ++ [calcHash hash tree.nTransactions vTxid (height + 1) pos] }
    else
      let entered := traverseAndBuild vTxid vMatch height (pos * 2) stored
      if pos * 2 + 1 < calcTreeWidth tree.nTransactions height then
        traverseAndBuild vTxid vMatch height (pos * 2 + 1) entered
      else entered

/-- `CPartialMerkleTree(vTxid, vMatch)` -/
def build (vTxid : List UInt256) (vMatch : List Bool) : Option CPartialMerkleTree :=
  let nTransactions := UInt32.ofNat vTxid.length
  (treeHeight nTransactions 32 0).map fun nHeight =>
    traverseAndBuild hash vTxid vMatch nHeight 0 ⟨nTransactions, [], [], false⟩

/-- What `TraverseAndExtract` changes. -/
structure Extraction where
  nBitsUsed : ℕ
  nHashUsed : ℕ
  vMatch : List UInt256
  fBad : Bool

/-- The next stored hash is used, and is a match or not. -/
def useHash (tree : CPartialMerkleTree) (matched : Bool) (used : Extraction) :
    UInt256 × Extraction :=
  if tree.vHash.length ≤ used.nHashUsed then (0, { used with fBad := true })
  else
    let stored := tree.vHash.getD used.nHashUsed default
    (stored, { used with
      nHashUsed := used.nHashUsed + 1
      vMatch := if matched then used.vMatch ++ [stored] else used.vMatch })

def traverseAndExtract (tree : CPartialMerkleTree) : ℕ → ℕ → Extraction → UInt256 × Extraction
  | 0, _, used =>
    if tree.vBits.length ≤ used.nBitsUsed then (0, { used with fBad := true })
    else
      useHash tree (tree.vBits.getD used.nBitsUsed false)
        { used with nBitsUsed := used.nBitsUsed + 1 }
  | height + 1, pos, used =>
    if tree.vBits.length ≤ used.nBitsUsed then (0, { used with fBad := true })
    else
      let next := { used with nBitsUsed := used.nBitsUsed + 1 }
      if !tree.vBits.getD used.nBitsUsed false then useHash tree false next
      else
        let left := traverseAndExtract tree height (pos * 2) next
        if pos * 2 + 1 < calcTreeWidth tree.nTransactions height then
          let right := traverseAndExtract tree height (pos * 2 + 1) left.2
          (hash left.1 right.1, right.2)
        else (hash left.1 left.1, left.2)

/-- `CPartialMerkleTree::ExtractMatches`: the root, or 0 in case of failure, the matches, and
the tree with its flag. -/
def extractMatches (tree : CPartialMerkleTree) :
    Option (UInt256 × List UInt256 × CPartialMerkleTree) :=
  if tree.nTransactions = 0 then some (0, [], tree)
  else if maxBlockSizeCurrent / 60 < tree.nTransactions.toNat then some (0, [], tree)
  else if tree.nTransactions.toNat < tree.vHash.length then some (0, [], tree)
  else if tree.vBits.length < tree.vHash.length then some (0, [], tree)
  else
    (treeHeight tree.nTransactions 32 0).map fun nHeight =>
      let (hashMerkleRoot, used) := traverseAndExtract hash tree nHeight 0 ⟨0, 0, [], tree.fBad⟩
      let root :=
        if used.fBad then 0
        else if (used.nBitsUsed + 7) / 8 ≠ (tree.vBits.length + 7) / 8 then 0
        else if used.nHashUsed ≠ tree.vHash.length then 0
        else hashMerkleRoot
      (root, used.vMatch, { tree with fBad := used.fBad })

end Traversals

/-! ## The encoding -/

/-- `CPartialMerkleTree::SerializationOp` for writing -/
def serialize (tree : CPartialMerkleTree) : List UInt8 :=
  LittleEndian.bytes 4 tree.nTransactions.toNat ++
    (serializeVector UInt256.serialize tree.vHash ++ serializeBytes (PackedBits.pack tree.vBits))

/-- `CPartialMerkleTree::SerializationOp` for reading -/
def unserialize : Reader UInt8 CPartialMerkleTree := do
  let nTransactions ← UInt32.unserialize
  let vHash ← unserializeVector UInt256.unserialize 32 (by decide)
  let vBytes ← unserializeBytes
  pure ⟨nTransactions, PackedBits.unpack vBytes, vHash, false⟩

/-- The bits are padded to bytes, and the copy has not failed. -/
def padded (tree : CPartialMerkleTree) : CPartialMerkleTree :=
  { tree with
    vBits := tree.vBits ++
      List.replicate ((tree.vBits.length + 7) / 8 * 8 - tree.vBits.length) false
    fBad := false }

theorem unserialize_serialize {tree : CPartialMerkleTree} (hashes : tree.vHash.length ≤ maxSize)
    (bits : (tree.vBits.length + 7) / 8 ≤ maxSize) (suffix : List UInt8) :
    unserialize (tree.serialize ++ suffix) = some (tree.padded, suffix) := by
  have codes := codes_unserializeVector UInt256.codes 32 (by decide)
  rw [unserialize, UInt32.codes.bind_eq_some]
  refine ⟨tree.nTransactions, _, ⟨trivial, append_assoc _ _ _⟩, codes.bind_eq_some.mpr
    ⟨tree.vHash, _, ⟨⟨hashes, fun _ _ => trivial⟩, append_assoc _ _ _⟩,
      codes_unserializeBytes.bind_eq_some.mpr ⟨PackedBits.pack tree.vBits, suffix, ⟨?_, rfl⟩, ?_⟩⟩⟩
  · rwa [PackedBits.length_pack]
  · refine Reader.pure_eq_some.mpr ⟨?_, rfl⟩
    rw [PackedBits.unpack_pack]
    rfl

/-! ## The shape of the tree -/

variable {nTransactions : UInt32}

theorem lt_calcTreeWidth {height p : ℕ} (positive : 0 < nTransactions.toNat)
    (small : nTransactions.toNat + 2 ^ height ≤ 2 ^ 32) :
    p < calcTreeWidth nTransactions height ↔ p * 2 ^ height < nTransactions.toNat := by
  have power : 0 < 2 ^ height := Nat.two_pow_pos height
  rw [calcTreeWidth, Nat.mod_eq_of_lt (by omega), ← Nat.succ_le_iff, Nat.le_div_iff_mul_le power,
    Nat.succ_mul]
  omega

theorem treeHeight_eq (positive : 0 < nTransactions.toNat) (small : nTransactions.toNat ≤ 2 ^ 31)
    {left height : ℕ} (levels : height + left = 32)
    (below : height ≤ Nat.clog 2 nTransactions.toNat) :
    treeHeight nTransactions left height = some (Nat.clog 2 nTransactions.toNat) := by
  have top : Nat.clog 2 nTransactions.toNat ≤ 31 := Nat.clog_le_of_le_pow small
  induction left generalizing height with
  | zero => omega
  | succ left ih =>
    have power : 2 ^ height ≤ 2 ^ 31 := Nat.pow_le_pow_right Nat.two_pos (by omega)
    have wide : 1 < calcTreeWidth nTransactions height ↔
        height < Nat.clog 2 nTransactions.toNat := by
      rw [lt_calcTreeWidth positive (by omega), Nat.one_mul, Nat.lt_clog_iff_pow_lt Nat.one_lt_two]
    rw [treeHeight]
    split_ifs with more
    · exact ih (by omega) (wide.mp more)
    · rw [le_antisymm below (Nat.not_lt.mp fun lower => more (wide.mpr lower))]

/-! ## Building -/

section Build

variable {hash : UInt256 → UInt256 → UInt256} {nTransactions : UInt32} {vTxid : List UInt256}
  {vMatch : List Bool}

theorem right_iff (size : nTransactions.toNat = vTxid.length) (filled : 0 < vTxid.length)
    {height : ℕ} (pos : ℕ) (small : nTransactions.toNat + 2 ^ height ≤ 2 ^ 32) :
    pos * 2 + 1 < calcTreeWidth nTransactions height ↔
      (2 * pos + 1) * 2 ^ height < vTxid.length := by
  rw [lt_calcTreeWidth (by omega) small, size, Nat.mul_comm pos 2]

theorem calcHash_eq (size : nTransactions.toNat = vTxid.length) {height pos : ℕ}
    (small : nTransactions.toNat + 2 ^ height ≤ 2 ^ 32) (within : pos * 2 ^ height < vTxid.length) :
    calcHash hash nTransactions vTxid height pos =
      rootAt hash height (blockOf vTxid height pos) := by
  induction height generalizing pos with
  | zero =>
    rw [pow_zero, Nat.mul_one] at within
    rw [Pruned.blockOf_zero within]
    rfl
  | succ height ih =>
    have half : 2 ^ height ≤ 2 ^ (height + 1) := Nat.pow_le_pow_right Nat.two_pos (Nat.le_succ _)
    have lower : nTransactions.toNat + 2 ^ height ≤ 2 ^ 32 := by omega
    have left := ih lower (Pruned.left_start within)
    unfold calcHash
    rw [Nat.mul_comm pos 2, left]
    split_ifs with right
    · rw [Nat.mul_comm 2 pos, right_iff size (by omega) pos lower] at right
      rw [ih lower right, (blockOf_both hash right).1]
    · rw [Nat.mul_comm 2 pos, right_iff size (by omega) pos lower] at right
      rw [(blockOf_only hash (Nat.not_lt.mp right)).2.1]

theorem parentOfMatch_eq (size : nTransactions.toNat = vMatch.length) (height pos : ℕ) :
    parentOfMatch nTransactions vMatch height pos = (blockOf vMatch height pos).any id := by
  rw [Bool.eq_iff_iff, parentOfMatch, List.any_eq_true, List.any_eq_true]
  constructor
  · intro found
    obtain ⟨p, mem, set⟩ := found
    obtain ⟨start, stop⟩ := List.mem_range'_1.mp mem
    obtain ⟨inside, set⟩ := (Bool.and_eq_true _ _).mp set
    have within : p < vMatch.length := size ▸ of_decide_eq_true inside
    rw [getD_eq_getElem _ _ within] at set
    exact ⟨true, mem_blockOf.mpr ⟨p, ⟨start, stop⟩, set ▸ List.getElem?_eq_getElem within⟩, rfl⟩
  · intro found
    obtain ⟨-, mem, rfl⟩ := found
    obtain ⟨p, range, found⟩ := mem_blockOf.mp mem
    obtain ⟨within, value⟩ := List.getElem?_eq_some_iff.mp found
    refine ⟨p, List.mem_range'_1.mpr range, ?_⟩
    rw [getD_eq_getElem _ _ within, value, decide_eq_true (size ▸ within), Bool.true_and]

variable (hash) in
/-- `TraverseAndBuild` appends a pruned tree. -/
theorem traverseAndBuild_eq (size : nTransactions.toNat = vTxid.length)
    (lengths : vMatch.length = vTxid.length) {height pos : ℕ}
    (small : nTransactions.toNat + 2 ^ height ≤ 2 ^ 32) (within : pos * 2 ^ height < vTxid.length)
    (vBits : List Bool) (vHash : List UInt256) (fBad : Bool) :
    traverseAndBuild hash vTxid vMatch height pos ⟨nTransactions, vBits, vHash, fBad⟩ =
      ⟨nTransactions, vBits ++ (Pruned.prune hash vTxid vMatch height pos).bits,
        vHash ++ (Pruned.prune hash vTxid vMatch height pos).hashes, fBad⟩ := by
  induction height generalizing pos vBits vHash with
  | zero =>
    rw [pow_zero, Nat.mul_one] at within
    have mark : parentOfMatch nTransactions vMatch 0 pos = vMatch.getD pos false := by
      rw [parentOfMatch_eq (size.trans lengths.symm), Pruned.blockOf_zero (lengths ▸ within),
        List.any_cons, List.any_nil, Bool.or_false]
      rfl
    simp only [traverseAndBuild, mark]
    rfl
  | succ height ih =>
    have half : 2 ^ height ≤ 2 ^ (height + 1) := Nat.pow_le_pow_right Nat.two_pos (Nat.le_succ _)
    have lower : nTransactions.toNat + 2 ^ height ≤ 2 ^ 32 := by omega
    have start := Pruned.left_start within
    have right := right_iff size (by omega) pos lower
    rw [Nat.mul_comm pos 2] at right
    simp only [traverseAndBuild, parentOfMatch_eq (size.trans lengths.symm), Pruned.prune,
      Nat.mul_comm pos 2, right, ih lower start]
    cases (blockOf vMatch (height + 1) pos).any id with
    | false =>
      simp only [calcHash_eq size small within]
      rfl
    | true =>
      by_cases reached : (2 * pos + 1) * 2 ^ height < vTxid.length
      · simp only [if_pos reached, ih lower reached]
        simp [Pruned.bits, Pruned.hashes]
      · simp only [if_neg reached]
        simp [Pruned.bits, Pruned.hashes]

end Build

/-! ## Extracting -/

section Extract

variable {hash : UInt256 → UInt256 → UInt256} {tree : CPartialMerkleTree}

variable {α : Type} {used : ℕ} {value : UInt256}

theorem drop_eq_cons {items rest : List α} {item : α} (other : α)
    (next : items.drop used = item :: rest) :
    used < items.length ∧ items.getD used other = item ∧ items.drop (used + 1) = rest := by
  have within : used < items.length := by
    by_contra beyond
    rw [List.drop_eq_nil_of_le (Nat.not_lt.mp beyond)] at next
    exact absurd next (List.cons_ne_nil _ _).symm
  rw [List.drop_eq_getElem_cons within] at next
  obtain ⟨rfl, rfl⟩ := List.cons.inj next
  exact ⟨within, getD_eq_getElem _ _ within, rfl⟩

theorem drop_length_add {items first rest : List α} (next : items.drop used = first ++ rest) :
    items.drop (used + first.length) = rest := by
  rw [← List.drop_drop, next, List.drop_left]

theorem useHash_of_drop {used : Extraction} {rest : List UInt256} (matched : Bool)
    (next : tree.vHash.drop used.nHashUsed = value :: rest) :
    useHash tree matched used = (value, { used with
      nHashUsed := used.nHashUsed + 1
      vMatch := used.vMatch ++ if matched then [value] else [] }) := by
  obtain ⟨within, item, -⟩ := drop_eq_cons default next
  rw [useHash, if_neg (Nat.not_le.mpr within), item]
  cases matched with
  | false => simp only [Bool.false_eq_true, if_false, List.append_nil]
  | true => simp

variable (hash) in
/-- `TraverseAndExtract` reads a pruned tree of the right shape. -/
theorem traverseAndExtract_of_drop (positive : 0 < tree.nTransactions.toNat) {height : ℕ}
    (pruned : Pruned UInt256 height) {pos : ℕ}
    (small : tree.nTransactions.toNat + 2 ^ height ≤ 2 ^ 32)
    (fits : pruned.Fits tree.nTransactions.toNat pos) (used : Extraction) {bits : List Bool}
    {hashes : List UInt256} (nextBits : tree.vBits.drop used.nBitsUsed = pruned.bits ++ bits)
    (nextHashes : tree.vHash.drop used.nHashUsed = pruned.hashes ++ hashes) :
    traverseAndExtract hash tree height pos used = (pruned.digest hash,
      { used with
        nBitsUsed := used.nBitsUsed + pruned.bits.length
        nHashUsed := used.nHashUsed + pruned.hashes.length
        vMatch := used.vMatch ++ pruned.shown }) := by
  induction pruned generalizing pos used bits hashes with
  | leaf shown value =>
    obtain ⟨within, bit, -⟩ := drop_eq_cons false nextBits
    rw [traverseAndExtract, if_neg (Nat.not_le.mpr within), bit]
    exact useHash_of_drop shown nextHashes
  | hidden root =>
    obtain ⟨within, bit, -⟩ := drop_eq_cons false nextBits
    rw [traverseAndExtract, if_neg (Nat.not_le.mpr within), bit]
    exact useHash_of_drop false nextHashes
  | @only height left ih =>
    obtain ⟨within, bit, after⟩ := drop_eq_cons false nextBits
    obtain ⟨beyond, fitsLeft⟩ := fits
    have half : 2 ^ height ≤ 2 ^ (height + 1) := Nat.pow_le_pow_right Nat.two_pos (Nat.le_succ _)
    have alone : ¬2 * pos + 1 < calcTreeWidth tree.nTransactions height := by
      rw [lt_calcTreeWidth positive (by omega)]
      exact Nat.not_lt.mpr beyond
    have entered := ih (by omega) fitsLeft { used with nBitsUsed := used.nBitsUsed + 1 } after
      nextHashes
    rw [traverseAndExtract, if_neg (Nat.not_le.mpr within), bit, Nat.mul_comm pos 2]
    simp only [Bool.not_true, Bool.false_eq_true, if_false, if_neg alone, entered]
    simp [Pruned.digest, Pruned.bits, Pruned.hashes, Pruned.shown, Nat.add_assoc, Nat.add_comm 1]
  | @both height left right ihLeft ihRight =>
    obtain ⟨within, bit, after⟩ := drop_eq_cons false nextBits
    obtain ⟨inside, fitsLeft, fitsRight⟩ := fits
    have half : 2 ^ height ≤ 2 ^ (height + 1) := Nat.pow_le_pow_right Nat.two_pos (Nat.le_succ _)
    have reached : 2 * pos + 1 < calcTreeWidth tree.nTransactions height :=
      (lt_calcTreeWidth positive (by omega)).mpr inside
    rw [Pruned.hashes, append_assoc] at nextHashes
    rw [List.append_eq, append_assoc] at after
    let entered : Extraction := { used with nBitsUsed := used.nBitsUsed + 1 }
    have first := ihLeft (by omega) fitsLeft entered after nextHashes
    have second := ihRight (by omega) fitsRight
      { entered with
        nBitsUsed := entered.nBitsUsed + left.bits.length
        nHashUsed := entered.nHashUsed + left.hashes.length
        vMatch := entered.vMatch ++ left.shown }
      (drop_length_add after) (drop_length_add nextHashes)
    rw [traverseAndExtract, if_neg (Nat.not_le.mpr within), bit, Nat.mul_comm pos 2]
    simp only [Bool.not_true, Bool.false_eq_true, if_false, if_pos reached, first, second, entered]
    simp [Pruned.digest, Pruned.bits, Pruned.hashes, Pruned.shown, Nat.add_assoc, Nat.add_comm 1]

theorem drop_eq_getD_cons (within : used < tree.vBits.length) :
    tree.vBits.drop used = tree.vBits.getD used false :: tree.vBits.drop (used + 1) := by
  rw [List.drop_eq_getElem_cons within, getD_eq_getElem _ _ within]

variable {used final : Extraction}

theorem exists_of_useHash {matched : Bool} (result : useHash tree matched used = (value, final))
    (succeeded : final.fBad = false) :
    used.fBad = false ∧ final.nBitsUsed = used.nBitsUsed ∧
      tree.vHash.drop used.nHashUsed = value :: tree.vHash.drop final.nHashUsed ∧
      final.vMatch = used.vMatch ++ if matched then [value] else [] := by
  unfold useHash at result
  by_cases beyond : tree.vHash.length ≤ used.nHashUsed
  · rw [if_pos beyond] at result
    obtain ⟨-, rfl⟩ := Prod.mk.inj result
    exact absurd succeeded.symm Bool.false_ne_true
  · rw [if_neg beyond] at result
    obtain ⟨rfl, rfl⟩ := Prod.mk.inj result
    have within := Nat.not_le.mp beyond
    refine ⟨succeeded, rfl, ?_, ?_⟩
    · rw [List.drop_eq_getElem_cons within, getD_eq_getElem _ _ within]
    · cases matched with
      | false => exact (List.append_nil _).symm
      | true => rfl

/-- Whatever `TraverseAndExtract` reads without failing is a pruned tree. -/
theorem exists_pruned (positive : 0 < tree.nTransactions.toNat) {height pos : ℕ}
    (small : tree.nTransactions.toNat + 2 ^ height ≤ 2 ^ 32)
    (result : traverseAndExtract hash tree height pos used = (value, final))
    (succeeded : final.fBad = false) :
    used.fBad = false ∧ ∃ pruned : Pruned UInt256 height,
      pruned.Fits tree.nTransactions.toNat pos ∧
      tree.vBits.drop used.nBitsUsed = pruned.bits ++ tree.vBits.drop final.nBitsUsed ∧
      tree.vHash.drop used.nHashUsed = pruned.hashes ++ tree.vHash.drop final.nHashUsed ∧
      value = pruned.digest hash ∧ final.vMatch = used.vMatch ++ pruned.shown := by
  induction height generalizing pos used final value with
  | zero =>
    rw [traverseAndExtract] at result
    split_ifs at result with beyond
    · obtain ⟨-, rfl⟩ := Prod.mk.inj result
      exact absurd succeeded.symm Bool.false_ne_true
    · obtain ⟨before, bits, hashes, found⟩ := exists_of_useHash result succeeded
      refine ⟨before, .leaf (tree.vBits.getD used.nBitsUsed false) value, trivial, ?_, hashes,
        rfl, found⟩
      rw [bits]
      exact drop_eq_getD_cons (Nat.not_le.mp beyond)
  | succ height ih =>
    have half : 2 ^ height ≤ 2 ^ (height + 1) := Nat.pow_le_pow_right Nat.two_pos (Nat.le_succ _)
    have enter : ¬(!tree.vBits.getD used.nBitsUsed false) = true →
        tree.vBits.getD used.nBitsUsed false = true := by
      rw [Bool.not_eq_true', Bool.not_eq_false]
      exact id
    rw [traverseAndExtract] at result
    split_ifs at result with beyond stopped reached
    · obtain ⟨-, rfl⟩ := Prod.mk.inj result
      exact absurd succeeded.symm Bool.false_ne_true
    · obtain ⟨before, bits, hashes, found⟩ := exists_of_useHash result succeeded
      refine ⟨before, .hidden value, trivial, ?_, hashes, rfl, found⟩
      rw [bits, drop_eq_getD_cons (Nat.not_le.mp beyond), (Bool.not_eq_true' _).mp stopped]
      rfl
    · obtain ⟨rfl, rfl⟩ := Prod.mk.inj result
      obtain ⟨middle, right, fitsRight, bitsRight, hashesRight, digestRight, shownRight⟩ :=
        ih (by omega) rfl succeeded
      obtain ⟨before, left, fitsLeft, bitsLeft, hashesLeft, digestLeft, shownLeft⟩ :=
        ih (by omega) rfl middle
      rw [lt_calcTreeWidth positive (by omega)] at reached
      rw [Nat.mul_comm pos 2] at *
      refine ⟨before, .both left right, ⟨reached, fitsLeft, fitsRight⟩, ?_, ?_, ?_, ?_⟩
      · rw [drop_eq_getD_cons (Nat.not_le.mp beyond), enter stopped, bitsLeft, bitsRight,
          Pruned.bits, cons_append, append_assoc]
      · rw [hashesLeft, hashesRight, Pruned.hashes, append_assoc]
      · rw [digestLeft, digestRight, Pruned.digest]
      · rw [shownRight, shownLeft, Pruned.shown, append_assoc]
    · obtain ⟨rfl, rfl⟩ := Prod.mk.inj result
      obtain ⟨before, left, fits, bits, hashes, digest, shown⟩ := ih (by omega) rfl succeeded
      rw [lt_calcTreeWidth positive (by omega)] at reached
      rw [Nat.mul_comm pos 2] at *
      refine ⟨before, .only left, ⟨Nat.not_lt.mp reached, fits⟩, ?_, hashes, ?_, shown⟩
      · rw [drop_eq_getD_cons (Nat.not_le.mp beyond), enter stopped, bits, Pruned.bits, cons_append]
      · rw [digest, Pruned.digest]

end Extract

end CPartialMerkleTree

end DogeCash
