/-
# CoinSelection.Order -- orders on coins

Coins are ordered by amount or by value-age, ascending or descending.  `Order.less` is strict;
coins with equal keys are less in neither direction.  A NaN amount is less than nothing and
nothing is less than it, so amounts are ordered consistently only among coins that are
`comparable`.
-/
import CoinSelection.Coin

namespace CoinSelection

set_option autoImplicit false

/-- What a coin is measured by. -/
inductive Measure where
  | amount
  | valueAge
  deriving DecidableEq, Repr

namespace Measure

def less : Measure → Coin → Coin → Bool
  | amount, a, b => decide (a.amount < b.amount)
  | valueAge, a, b => decide (a.valueAge < b.valueAge)

/-- Whether the coin's key can be compared at all. -/
def comparable : Measure → Coin → Bool
  | amount, c => !c.amount.isNaN
  | valueAge, _ => true

end Measure

structure Order where
  measure : Measure
  descending : Bool
  deriving DecidableEq, Repr

namespace Order

def ascending (m : Measure) : Order := ⟨m, false⟩

def reverse (o : Order) : Order := ⟨o.measure, !o.descending⟩

def less (o : Order) (a b : Coin) : Bool :=
  if o.descending then o.measure.less b a else o.measure.less a b

theorem less_reverse (o : Order) (a b : Coin) : o.reverse.less a b = o.less b a := by
  cases h : o.descending <;> simp [less, reverse, h]

end Order

end CoinSelection
