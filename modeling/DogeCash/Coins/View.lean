import DogeCash.Coins.Coins

/-! # The coin set as a map

A coins view seen from outside: the entry of every transaction id, an absent
entry being the empty one. `modifyCoins` is what `CCoinsViewCache::ModifyCoins`
followed by the destructor of its `CCoinsModifier` does to that map.
-/

namespace DogeCash

abbrev CoinsMap := UInt256 → CCoins

namespace CoinsMap

/-- `ModifyCoins`: the entry is changed in place and cleaned up when the
modifier goes out of scope. -/
def modifyCoins (view : CoinsMap) (txid : UInt256) (modification : CCoins → CCoins) : CoinsMap :=
  Function.update view txid (modification (view txid)).cleanup

def haveCoins (view : CoinsMap) (txid : UInt256) : Bool := !(view txid).vout.isEmpty

def haveInputs (view : CoinsMap) (tx : CTransaction) : Bool :=
  tx.isCoinBase || tx.isZerocoinSpend ||
    tx.vin.all fun txin => (view txin.prevout.hash).isAvailable txin.prevout.n

def Same (view other : CoinsMap) : Prop := ∀ txid, (view txid).same (other txid) = true

def WellFormed (view : CoinsMap) : Prop := ∀ txid, (view txid).WellFormed

@[simp] theorem modifyCoins_self (view : CoinsMap) (txid : UInt256)
    (modification : CCoins → CCoins) :
    view.modifyCoins txid modification txid = (modification (view txid)).cleanup :=
  Function.update_self ..

theorem modifyCoins_of_ne (view : CoinsMap) {txid other : UInt256} (ne : other ≠ txid)
    (modification : CCoins → CCoins) : view.modifyCoins txid modification other = view other :=
  Function.update_of_ne ne ..

theorem WellFormed.modifyCoins {view : CoinsMap} (wellFormed : view.WellFormed) (txid : UInt256)
    {modification : CCoins → CCoins}
    (changed : (modification (view txid)).cleanup.WellFormed) :
    (view.modifyCoins txid modification).WellFormed := by
  intro other
  by_cases target : other = txid
  · subst target
    rwa [modifyCoins_self]
  · rw [modifyCoins_of_ne view target]
    exact wellFormed other

end CoinsMap

/-- A coins view whose entries are all well formed, as those of every view are
that was filled by `FromTx`, `Spend` and the deserialization of `CCoins`. -/
structure CoinsView where
  coins : CoinsMap
  wellFormed : coins.WellFormed

namespace CoinsView

def empty : CoinsView := ⟨fun _ => {}, fun _ => CCoins.default_wellFormed⟩

def set (view : CoinsView) (txid : UInt256) (coins : CCoins) (wellFormed : coins.WellFormed) :
    CoinsView where
  coins := view.coins.modifyCoins txid fun _ => coins
  wellFormed := view.wellFormed.modifyCoins txid (by rwa [wellFormed.cleanup_eq])

end CoinsView

end DogeCash
