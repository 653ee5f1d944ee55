/-
# CoinSelection.Coin -- coins and totals

A coin is a spendable output: an amount in the smallest unit of the currency and a value-age, the
amount times the number of confirmations.  Amounts are binary64 numbers and their sums round as
such sums do; value-ages are integers of any size and their sums are exact.

A `Goal` is what a selection has to pay for.  `Goal.met` is the test for a total: it is exactly
the target, or leaves at least the least acceptable change.
-/

namespace CoinSelection

set_option autoImplicit false

structure Coin where
  label : String
  amount : Float
  valueAge : Int

structure Goal where
  target : Float
  /-- The least change that is acceptable, if there is any. -/
  minChange : Float

/-- Whether a total pays for the target, with no change or with enough of it. -/
def Goal.met (g : Goal) (total : Float) : Bool :=
  total == g.target || decide (g.target + g.minChange ≤ total)

/-- What is left to pay when `amount` of the target is paid already. -/
def Goal.after (g : Goal) (amount : Float) : Goal := ⟨g.target - amount, g.minChange⟩

/-- Running totals of a set of coins. -/
structure Totals where
  amount : Float
  valueAge : Int

namespace Totals

def zero : Totals := ⟨0, 0⟩

def add (t : Totals) (c : Coin) : Totals := ⟨t.amount + c.amount, t.valueAge + c.valueAge⟩

/-- Takes a coin out again.  The amount need not return to what it was before the coin was added:
both steps round. -/
def remove (t : Totals) (c : Coin) : Totals := ⟨t.amount - c.amount, t.valueAge - c.valueAge⟩

/-- The totals of a list of coins, summed from the left. -/
def of (coins : List Coin) : Totals := coins.foldl add zero

end Totals

end CoinSelection
