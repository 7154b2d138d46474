import DogeCash.Foundation.Components
import DogeCash.Script.Destination
import DogeCash.Wallet.AvailableCoins
import Mathlib.Data.Prod.Lex

/-! # Address groupings

`GetAddressGroupings` collects the addresses that the transactions of a wallet show to have one
owner: each transaction joins the addresses of its owned inputs with each other and with those of
its change. What is returned are the connected components, together with each address of an owned
output.
-/

namespace DogeCash

/-- The position of a destination in the order of `CTxDestination`: the keys first. -/
def CTxDestination.rank : CTxDestination → ℕ ×ₗ ℕ
  | .noDestination => toLex (0, 0)
  | .keyID hash => toLex (1, hash.toNat)
  | .scriptID hash => toLex (2, hash.toNat)

theorem CTxDestination.rank_injective : Function.Injective rank := by
  intro a b same
  cases a <;> cases b <;> simp_all [rank, ← BitVec.toNat_inj]

instance : LinearOrder CTxDestination := LinearOrder.lift' _ CTxDestination.rank_injective

/-- A `set` of destinations, in the order of its elements. -/
def destinationsOf (destinations : Finset CTxDestination) : List CTxDestination :=
  destinations.sort (· ≤ ·)

theorem destinationsOf_injective : Function.Injective destinationsOf := fun a b same => by
  ext destination
  have listed := congrArg (destination ∈ ·) same
  simpa [destinationsOf] using listed

/-- The order of a `set` of sets, that of the elements of each. -/
abbrev setOrder : LinearOrder (Finset CTxDestination) :=
  LinearOrder.lift' _ destinationsOf_injective

/-- A wallet with its address book, and what `ExtractDestination` finds in a script. -/
structure AddressWallet extends CWallet where
  /-- The addresses of `mapAddressBook`. -/
  mapAddressBook : List CTxDestination
  extractDestination : CScript → Option CTxDestination

namespace AddressWallet

variable (wallet : AddressWallet)

/-- The address of an output of the wallet. -/
def ownAddress (txout : CTxOut) : Option CTxDestination :=
  if wallet.isMine txout = .no then none else wallet.extractDestination txout.scriptPubKey

/-- The output that an input spends, of a transaction of the wallet. -/
def prevout (txin : CTxIn) : Option CTxOut := do
  let prev ← wallet.mapWallet.find? fun pcoin => pcoin.tx.hash = txin.prevout.hash
  prev.tx.vout[txin.prevout.n.toNat]?

/-- `IsChange`: an own output whose address is not in the address book. -/
def isChange (txout : CTxOut) : Bool :=
  wallet.isMine txout ≠ .no &&
    match wallet.extractDestination txout.scriptPubKey with
    | none => true
    | some address => !wallet.mapAddressBook.contains address

def inputAddresses (tx : CTransaction) : List CTxDestination :=
  tx.vin.filterMap fun txin => (wallet.prevout txin).bind wallet.ownAddress

def changeAddresses (tx : CTransaction) : List CTxDestination :=
  tx.vout.filterMap fun txout =>
    if wallet.isChange txout then wallet.extractDestination txout.scriptPubKey else none

/-- The groups that `GetAddressGroupings` takes from one transaction: its inputs with its change,
and each own output alone. -/
def groupings (tx : CTransaction) : List (Finset CTxDestination) :=
  let inputs := wallet.inputAddresses tx
  let lone := (tx.vout.filterMap wallet.ownAddress).map singleton
  if inputs = [] then lone else (inputs ++ wallet.changeAddresses tx).toFinset :: lone

def getAddressGroupings (allocator : Components.Allocator) :
    Option (Finset (Finset CTxDestination)) :=
  let groupings := (wallet.mapWallet.flatMap fun pcoin => wallet.groupings pcoin.tx).toFinset
  Components.mergeAll allocator (groupings.sort setOrder.le)

/-- A transaction spends from the first address, and spends from or gives change to the second. -/
def Joins (a b : CTxDestination) : Prop :=
  ∃ pcoin ∈ wallet.mapWallet, a ∈ wallet.inputAddresses pcoin.tx ∧
    (b ∈ wallet.inputAddresses pcoin.tx ∨ b ∈ wallet.changeAddresses pcoin.tx)

/-- An output of the wallet is paid to the address. -/
def Owns (a : CTxDestination) : Prop :=
  ∃ pcoin ∈ wallet.mapWallet, ∃ txout ∈ pcoin.tx.vout, wallet.ownAddress txout = some a

variable {wallet} {a b : CTxDestination}

variable {tx : CTransaction} {group : Finset CTxDestination}

theorem mem_lone :
    group ∈ (tx.vout.filterMap wallet.ownAddress).map singleton ↔
      ∃ c, (∃ txout ∈ tx.vout, wallet.ownAddress txout = some c) ∧ {c} = group := by
  simp

theorem mem_groupings :
    group ∈ wallet.groupings tx ↔
      (wallet.inputAddresses tx ≠ [] ∧
        group = (wallet.inputAddresses tx ++ wallet.changeAddresses tx).toFinset) ∨
      ∃ c, (∃ txout ∈ tx.vout, wallet.ownAddress txout = some c) ∧ {c} = group := by
  simp only [groupings]
  split_ifs with none
  · rw [mem_lone]
    exact ⟨.inr, fun either => either.resolve_left fun some => some.1 none⟩
  · rw [List.mem_cons, mem_lone, and_iff_right none]

theorem eqvGen_of_mem {pcoin : CWalletTx} (mem : pcoin ∈ wallet.mapWallet)
    (some : wallet.inputAddresses pcoin.tx ≠ [])
    (first : a ∈ wallet.inputAddresses pcoin.tx ++ wallet.changeAddresses pcoin.tx)
    (second : b ∈ wallet.inputAddresses pcoin.tx ++ wallet.changeAddresses pcoin.tx) :
    Relation.EqvGen wallet.Joins a b := by
  obtain ⟨input, inside⟩ := List.exists_mem_of_ne_nil _ some
  have joins {c : CTxDestination}
      (there : c ∈ wallet.inputAddresses pcoin.tx ++ wallet.changeAddresses pcoin.tx) :
      wallet.Joins input c := ⟨pcoin, mem, inside, List.mem_append.mp there⟩
  exact .trans _ input _ (.symm _ _ (.rel _ _ (joins first))) (.rel _ _ (joins second))

section Links

variable {groups : Set (Finset CTxDestination)}
  (groups_iff : ∀ group, group ∈ groups ↔
    ∃ pcoin ∈ wallet.mapWallet, group ∈ wallet.groupings pcoin.tx)

include groups_iff

theorem eqvGen_of_joined (joined : Components.Joined groups a b) :
    Relation.EqvGen wallet.Joins a b := by
  have link (a b : CTxDestination) (step : ∃ group ∈ groups, a ∈ group ∧ b ∈ group) :
      Relation.EqvGen wallet.Joins a b := by
    obtain ⟨group, inside, first, second⟩ := step
    obtain ⟨pcoin, mem, here⟩ := (groups_iff group).mp inside
    rcases mem_groupings.mp here with ⟨some, rfl⟩ | ⟨c, -, rfl⟩
    · exact eqvGen_of_mem mem some (List.mem_toFinset.mp first) (List.mem_toFinset.mp second)
    · rw [Finset.mem_singleton.mp first, Finset.mem_singleton.mp second]
      exact .refl c
  induction joined with
  | single step => exact link _ _ step
  | tail _ step ih => exact .trans _ _ _ ih (link _ _ step)

theorem joined_self (owns : wallet.Owns a) : Components.Joined groups a a := by
  obtain ⟨pcoin, mem, txout, inside, owned⟩ := owns
  have lone : ({a} : Finset CTxDestination) ∈ wallet.groupings pcoin.tx :=
    mem_groupings.mpr (.inr ⟨a, ⟨txout, inside, owned⟩, rfl⟩)
  exact .single ⟨{a}, (groups_iff _).mpr ⟨pcoin, mem, lone⟩, Finset.mem_singleton_self a,
    Finset.mem_singleton_self a⟩

theorem joined_of_joins (joins : wallet.Joins a b) : Components.Joined groups a b := by
  obtain ⟨pcoin, mem, here, there⟩ := joins
  have grouping := mem_groupings.mpr (.inl ⟨List.ne_nil_of_mem here, rfl⟩)
  exact .single ⟨_, (groups_iff _).mpr ⟨pcoin, mem, grouping⟩,
    List.mem_toFinset.mpr (List.mem_append.mpr (.inl here)),
    List.mem_toFinset.mpr (List.mem_append.mpr there)⟩

theorem eq_or_joined (linked : Relation.EqvGen wallet.Joins a b) :
    a = b ∨ Components.Joined groups a b := by
  induction linked with
  | rel a b joins => exact .inr (joined_of_joins groups_iff joins)
  | refl a => exact .inl rfl
  | symm a b _ ih => exact ih.imp Eq.symm Components.Joined.symm
  | trans a b c _ _ first second =>
    rcases first with rfl | joined
    · exact second
    · rcases second with rfl | next
      · exact .inr joined
      · exact .inr (joined.trans next)

end Links

/-- **The groupings are the connected components** of the addresses that transactions of the wallet
join, and every address of an owned output is in one. -/
theorem addressGroupings (wallet : AddressWallet) (allocator : Components.Allocator) :
    ∃ ret, wallet.getAddressGroupings allocator = some ret ∧
      (∀ first ∈ ret, ∀ second ∈ ret, first ≠ second → Disjoint first second) ∧
      (∀ a b, a ≠ b → ((∃ group ∈ ret, a ∈ group ∧ b ∈ group) ↔ Relation.EqvGen wallet.Joins a b)) ∧
      ∀ a, wallet.Owns a → ∃! group, group ∈ ret ∧ a ∈ group := by
  let groups := (wallet.mapWallet.flatMap fun pcoin => wallet.groupings pcoin.tx).toFinset
  obtain ⟨ret, merged, disjoint, joined⟩ :=
    Components.mergeAll_eq_some allocator (groups.sort setOrder.le)
  have groups_iff (group : Finset CTxDestination) :
      group ∈ {group | group ∈ groups.sort setOrder.le} ↔
        ∃ pcoin ∈ wallet.mapWallet, group ∈ wallet.groupings pcoin.tx := by
    rw [Set.mem_ofPred_eq, Finset.mem_sort, List.mem_toFinset, List.mem_flatMap]
  refine ⟨ret, merged, disjoint, fun a b unlike => ?_, fun a owns => ?_⟩
  · rw [joined]
    exact ⟨eqvGen_of_joined groups_iff, fun linked =>
      (eq_or_joined groups_iff linked).resolve_left unlike⟩
  · obtain ⟨group, inside, here, -⟩ := (joined a a).mpr (joined_self groups_iff owns)
    refine ⟨group, ⟨inside, here⟩, fun other also => ?_⟩
    by_contra unlike
    exact Finset.disjoint_left.mp (disjoint other also.1 group inside unlike) also.2 here

end AddressWallet

end DogeCash
