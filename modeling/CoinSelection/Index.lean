/-
# CoinSelection.Index -- positions that may not exist

A position is either one that the library produced, a natural number, or one that a caller asked
for, any binary64 number at all.  A negative, fractional, infinite or undefined number names no
place; negative zero names the first.
-/
import CoinSelection.Decimal.Layout
import CoinSelection.Whole

namespace CoinSelection

set_option autoImplicit false

inductive Index where
  | nat (n : Nat)
  | real (x : Float)
  deriving DecidableEq

namespace Index

/-- The place that an index names, if it names one. -/
def toNat? : Index → Option Nat
  | nat n => some n
  | real x => Whole.nat? x

def text : Index → String
  | nat n => toString n
  | real x => Layout.amount.number x

/-- The place among `size` that an index names, if it names one of them. -/
def place? (i : Index) (size : Nat) : Option (Fin size) :=
  i.toNat?.bind fun n => if h : n < size then some ⟨n, h⟩ else none

/-- The first `n` places in order. -/
def upTo (n : Nat) : Array Index := Array.ofFn fun k : Fin n => nat k

/-- The numbers `start, start + 1, …` below `stop`.  One step adds one to a binary64 number, so a
start that is not whole stays so, and negative zero is kept.  The distance bounds how many there
are; two more allow for the rounding of the steps.

A step can change nothing: from an infinite number, or from one of `2 ^ 53` or more in size.  Where
that happens below `stop`, as it does in the end below positive infinity, counting on from `start`
does not end and there is no such list; the one that is given here is cut off at the bound. -/
def interval (start stop : Float) : List Index := go (Whole.floorAbs (stop - start) + 2) start
where
  go : Nat → Float → List Index
    | 0, _ => []
    | n + 1, x => if x < stop then real x :: go n (x + 1) else []

end Index

end CoinSelection
