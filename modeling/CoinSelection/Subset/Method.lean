/-
# CoinSelection.Subset.Method -- subsets that change in place

The operations of a subset one change after the other.  A method that fails stops where it is, and
what it has changed until then stays changed; so a lookup that can fail must come before the first
change.

What a method comes to as a whole is `Subset.pushBack`, `Subset.popBack`, `Subset.popFront` or
`Subset.coins`.
-/
import CoinSelection.Subset

namespace CoinSelection.Subset

set_option autoImplicit false

/-- A step that works on a subset in place. -/
abbrev Method (α : Type) := ExceptT Fault (StateM Subset) α

namespace Method

/-- The coin that the source shows at a position. -/
def lookUp (source : Source) (i : Index) : Method Coin := liftM (source.coin i)

def addTotals (c : Coin) : Method Unit := do
  modify fun s => { s with totals.amount := s.totals.amount + c.amount }
  modify fun s => { s with totals.valueAge := s.totals.valueAge + c.valueAge }

def subTotals (c : Coin) : Method Unit := do
  modify fun s => { s with totals.amount := s.totals.amount - c.amount }
  modify fun s => { s with totals.valueAge := s.totals.valueAge - c.valueAge }

def size : Method Nat := return (← get).size

/-- Adds the coin at a position. -/
def pushBack (source : Source) (i : Index) : Method Unit := do
  let c ← lookUp source i
  modify fun s => { s with positions := s.positions.pushBack i }
  addTotals c

/-- Takes the last coin. -/
def popBack (source : Source) : Method Coin := do
  match (← get).positions.back? with
  | none => throw (.emptySubset "popBack")
  | some i =>
      let c ← lookUp source i
      modify fun s => { s with positions := s.positions.popBack }
      subTotals c
      return c

/-- Takes the first coin. -/
def popFront (source : Source) : Method Coin := do
  match (← get).positions.front? with
  | none => throw (.emptySubset "popFront")
  | some i =>
      let c ← lookUp source i
      modify fun s => { s with positions := s.positions.popFront }
      subTotals c
      return c

/-- The positions; those that have been taken are dropped first. -/
def indexes : Method (List Index) := do
  modify fun s => { s with positions := s.positions.compact }
  return (← get).positions.items.toList

/-- The coins at the positions, one lookup after the other. -/
def coins (source : Source) : Method (List Coin) := do
  (← indexes).mapM (lookUp source)

end Method

end CoinSelection.Subset
