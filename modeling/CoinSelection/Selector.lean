/-
# CoinSelection.Selector -- a policy with its arguments

A selector applies a policy to a list of coins and answers with the coins, their positions in the
list as it was given, and their totals.  The list is never reordered: the policy runs on a window
over it, and the positions it finds are looked up in that window.

Each selection is reported in one line: what was selected, or that nothing was.  A target that is
refused is not reported.
-/
import CoinSelection.Policy
import CoinSelection.Subset

namespace CoinSelection

set_option autoImplicit false

inductive Strategy where
  | minIndex
  | minNumber
  | maxValueAge
  | minPriority
  deriving DecidableEq, Repr

namespace Strategy

def name : Strategy → String
  | minIndex => "min-index"
  | minNumber => "min-number"
  | maxValueAge => "max-value-age"
  | minPriority => "min-priority"

def all : List Strategy := [minIndex, minNumber, maxValueAge, minPriority]

def ofName? (name : String) : Option Strategy := all.find? fun s => s.name == name

theorem ofName?_name (s : Strategy) : ofName? s.name = some s := by
  cases s <;> decide

theorem name_injective {s s' : Strategy} (same : s.name = s'.name) : s = s' :=
  Option.some.inj (by rw [← ofName?_name s, same, ofName?_name s'])

end Strategy

def Policy.strategy : Policy → Strategy
  | minIndex => .minIndex
  | minNumber => .minNumber
  | maxValueAge => .maxValueAge
  | minPriority _ => .minPriority

structure Selector where
  policy : Policy
  args : Args

/-- A selection carried back to the list that it was made from. -/
structure Selection where
  coins : List Coin
  indexes : List Index
  totals : Totals
  strategy : Strategy

inductive LogLevel where
  | info
  | warn
  deriving DecidableEq, Repr

def LogLevel.name : LogLevel → String
  | info => "info"
  | warn => "warn"

structure LogLine where
  level : LogLevel
  text : String
  deriving DecidableEq, Repr

namespace Selector

/-- A selector with a least average value-age, which must not be negative. -/
def minPriority? (args : Args) (threshold : Int) : Except Fault Selector :=
  if threshold < 0 then .error (.invalidArgs (.threshold threshold))
  else .ok ⟨.minPriority threshold, args⟩

/-- The positions, in the list, of the coins that the policy chooses. -/
def positions (s : Selector) (target : Float) (set : Source) : Except Fault (List Index) := do
  let (chosen, sorted) := s.policy.run s.args target set.whole
  (← chosen).mapM fun k => sorted.sourceIndex (.nat k)

/-- The selection at some positions of the list. -/
def materialize (s : Selector) (set : Source) (positions : List Index) :
    Except Fault Selection := do
  let subset ← Subset.ofIndexes set positions
  return ⟨← positions.mapM set.coin, positions, subset.totals, s.policy.strategy⟩

/-- The selection for a target, or the reason why there is none. -/
def select (s : Selector) (target : Float) (coins : List Coin) : Except Fault Selection := do
  if (Whole.nat? target).isNone then throw (.invalidArgs (.target target))
  let set := Source.collection coins.toArray
  s.materialize set (← s.positions target set)

/-- What is reported of a selection from a list of `size` coins. -/
def report (s : Selector) (target : Float) (size : Nat) : Except Fault Selection → List LogLine
  | .ok selection =>
      [⟨.info, "coinset: " ++ s.policy.strategy.name ++ s!" selected {selection.indexes.length} of "
        ++ s!"{size} coins totalling " ++ Layout.amount.number selection.totals.amount
        ++ " for target " ++ Layout.amount.number target⟩]
  | .error (.noSelection _) =>
      [⟨.warn, "coinset: " ++ s.policy.strategy.name ++ " found no selection for target "
        ++ Layout.amount.number target ++ s!" among {size} coins"⟩]
  | .error _ => []

end Selector

end CoinSelection
