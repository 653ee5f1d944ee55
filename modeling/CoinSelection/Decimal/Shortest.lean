/-
# CoinSelection.Decimal.Shortest -- the shortest decimal that reads back

A positive binary64 number is `m · 2 ^ e`.  The reals that round to it form an interval around it,
whose ends belong to it when `m` is even.  A decimal reads back as the number when it lies in that
interval.  `Decimal.shortest m e` is the decimal with the fewest digits that does, and of two such
decimals of the same length the nearer one.

All comparisons are made between natural numbers: the interval and the spacing of a decimal grid
are both scaled until neither has a denominator.
-/

namespace CoinSelection

set_option autoImplicit false

/-- The decimal `digits · 10 ^ exponent`. -/
structure Decimal where
  digits : Nat
  exponent : Int
  deriving DecidableEq, Repr

namespace Decimal

/-- How many decimal digits a number is written with. -/
def digitCount (n : Nat) : Nat := (Nat.toDigits 10 n).length

/-- The place of the leading decimal digit of the positive fraction `num / den`: the `k` with
`10 ^ k ≤ num / den < 10 ^ (k + 1)`. -/
def leadingPlace (num den : Nat) : Int :=
  if den ≤ num then (digitCount (num / den) : Int) - 1
  else -(digitCount ((den - 1) / num) : Int)

/-- The reals that round to one number, on a scale where both ends and the number itself are whole:
`low ≤ value ≤ high`, each times `2 ^ exponent`. -/
structure Interval where
  low : Nat
  value : Nat
  high : Nat
  exponent : Int
  /-- Whether the two ends round to the number as well. -/
  closed : Bool

namespace Interval

/-- The interval of `m · 2 ^ e`.  The gap below a power of two is half the gap above it, except
where the exponent is already the least one. -/
def around (m : Nat) (e : Int) : Interval where
  low := if m = 1 <<< 52 ∧ -1074 < e then 4 * m - 1 else 4 * m - 2
  value := 4 * m
  high := 4 * m + 2
  exponent := e - 2
  closed := m % 2 == 0

/-- The factor that clears the denominators from the interval when it is compared with the multiples
of `10 ^ place`. -/
def scale (i : Interval) (place : Int) : Nat := Nat.pow 10 (-place).toNat <<< i.exponent.toNat

/-- `10 ^ place` on the same scale. -/
def step (i : Interval) (place : Int) : Nat := Nat.pow 10 place.toNat <<< (-i.exponent).toNat

/-- Whether `n · 10 ^ place` lies in the interval. -/
def holds (i : Interval) (place : Int) (n : Nat) : Bool :=
  let point := n * i.step place
  let low := i.low * i.scale place
  let high := i.high * i.scale place
  if i.closed then low ≤ point && point ≤ high else low < point && point < high

/-- The point of the grid of `10 ^ place` that stands for the number: of its two neighbours on the
grid the one in the interval, the nearer one if both are, the even one if both are equally near. -/
def gridPoint? (i : Interval) (place : Int) : Option Nat :=
  let value := i.value * i.scale place
  let below := value / i.step place
  let rest := 2 * (value % i.step place)
  match i.holds place below, i.holds place (below + 1) with
  | true, false => some below
  | false, true => some (below + 1)
  | false, false => none
  | true, true =>
      if rest < i.step place ∨ rest = i.step place ∧ below % 2 = 0 then some below
      else some (below + 1)

end Interval

/-- The shortest decimal that reads back as `m · 2 ^ e`.  Seventeen digits always do, so one of
the eighteen grids has a point; coarser grids come first. -/
def shortest (m : Nat) (e : Int) : Decimal :=
  let i := Interval.around m e
  let top := leadingPlace (i.value * i.scale 0) (i.step 0) + 1
  let found := (List.range 18).findSome? fun k : Nat =>
    (i.gridPoint? (top - k)).map fun n => Decimal.mk n (top - k)
  found.getD ⟨m <<< e.toNat, 0⟩

end Decimal

end CoinSelection
