/-
# CoinSelection.Scan -- the shortest prefix that pays

Three of the four policies differ only in the order of the coins: they take coins from the front
until the goal is met.  The totals need not pass the test for good once they pass it, because an
exact match is followed by totals that leave too little change; the first total that passes
decides.
-/
import CoinSelection.Arrangement

namespace CoinSelection

set_option autoImplicit false

/-- How many amounts it takes until `total` and their sum meet the goal: at least one, and at most
`budget`. -/
def Goal.shortestPrefix (g : Goal) : Nat → Float → List Float → Option Nat
  | 0, _, _ | _, _, [] => none
  | budget + 1, total, amount :: rest =>
      if g.met (total + amount) then some 1
      else (g.shortestPrefix budget (total + amount) rest).map (· + 1)

variable {τ : Type}

/-- The shortest list of coins from the front that meets the goal. -/
def Goal.scan (g : Goal) (budget : Nat) (coins : List (Coin × τ)) : Option (List (Coin × τ)) :=
  (g.shortestPrefix budget 0 (coins.map (·.1.amount))).map coins.take

/-- Largest amounts first. -/
def Order.largestFirst : Order := ⟨.amount, true⟩

/-- As few coins as possible: the largest ones. -/
def Goal.fewest (g : Goal) (budget : Nat) (coins : List (Coin × τ)) : Option (List (Coin × τ)) :=
  g.scan budget (Order.largestFirst.arrange coins)

end CoinSelection
