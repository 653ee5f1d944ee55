/-
# CoinSelection.Arrangement -- coins put in order

`Order.permutation` is the stable sort, as the old positions of the coins in their new order: coins
of equal key keep the order in which they came, also when the order is descending.
`Order.arrange` puts coins that carry tags into that order.

Where the keys cannot all be compared there is no sorted order, and the permutation is the one
that an adaptive merge sort ends with.
-/
import CoinSelection.Order
import CoinSelection.Sort.Adaptive
import CoinSelection.Sort.Stable

namespace CoinSelection.Order

set_option autoImplicit false

variable {τ : Type}

/-- The old positions of the coins, in their new order. -/
def permutation (o : Order) (coins : List Coin) : List Nat :=
  let less := fun (a b : Coin × Nat) => o.less a.1 b.1
  let sorted :=
    if coins.all o.measure.comparable then Sort.stable less coins.zipIdx
    else Sort.Adaptive.sort less coins.zipIdx
  sorted.map (·.2)

/-- Puts tagged coins in order.  The tags do not matter for it. -/
def arrange (o : Order) (coins : List (Coin × τ)) : List (Coin × τ) :=
  let items := coins.toArray
  (o.permutation (coins.map (·.1))).filterMap (items[·]?)

/-- The amounts of the coins in order. -/
def amounts (o : Order) (coins : List Coin) : List Float :=
  (o.arrange (coins.map fun c => (c, ()))).map (·.1.amount)

end CoinSelection.Order
