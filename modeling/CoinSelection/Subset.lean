/-
# CoinSelection.Subset -- coins chosen from a source, with running totals

A subset is a list of positions in a source, taken from and added to at both ends, with the totals
of its coins.  The totals are summed once and kept up from then on: a coin is added to them when
its position is, as the source shows it then, and subtracted when its position is taken, as the
source shows it then.  So they are the totals of the coins in it as long as the source keeps its
order.

Every operation that fails leaves the subset as it was.
-/
import CoinSelection.Deque
import CoinSelection.Source

namespace CoinSelection

set_option autoImplicit false

structure Subset where
  positions : Deque Index
  totals : Totals

namespace Subset

def empty : Subset := ⟨.empty, .zero⟩

/-- The positions, from first to last. -/
def indexes (s : Subset) : List Index := s.positions.toList

def size (s : Subset) : Nat := s.positions.size

/-- Adds the coin at a position. -/
def pushBack (source : Source) (s : Subset) (i : Index) : Except Fault Subset := do
  return ⟨s.positions.pushBack i, s.totals.add (← source.coin i)⟩

/-- The subset of the coins at some positions. -/
def ofIndexes (source : Source) (indexes : List Index) : Except Fault Subset :=
  indexes.foldlM (pushBack source) empty

/-- Takes the last coin. -/
def popBack (source : Source) (s : Subset) : Except Fault (Coin × Subset) :=
  match s.positions.back? with
  | none => .error (.emptySubset "popBack")
  | some i => do
      let c ← source.coin i
      return (c, ⟨s.positions.popBack, s.totals.remove c⟩)

/-- Takes the first coin. -/
def popFront (source : Source) (s : Subset) : Except Fault (Coin × Subset) :=
  match s.positions.front? with
  | none => .error (.emptySubset "popFront")
  | some i => do
      let c ← source.coin i
      return (c, ⟨s.positions.popFront, s.totals.remove c⟩)

/-- The coins at its positions, as the source shows them now. -/
def coins (source : Source) (s : Subset) : Except Fault (List Coin) := s.indexes.mapM source.coin

end Subset

end CoinSelection
