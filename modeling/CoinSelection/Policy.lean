/-
# CoinSelection.Policy -- the four policies on a source

A policy puts the source in an order of its own and then chooses positions in it.  The order stays
behind, whether a selection was found or not.  A fault in a lookup comes before anything is moved.

`Policy.choose` is what is chosen from coins that can all be read and are in order already;
`Policy.choosePositions` adds what happens when a position cannot be read, `Policy.apply` the
order, and `Policy.run` takes the budget and the least change from the arguments.
-/
import CoinSelection.Args
import CoinSelection.MinPriority
import CoinSelection.Source

namespace CoinSelection

set_option autoImplicit false

inductive Policy where
  /-- The coins in front. -/
  | minIndex
  /-- As few coins as possible. -/
  | minNumber
  /-- The highest value-ages. -/
  | maxValueAge
  /-- An average value-age of at least the threshold. -/
  | minPriority (threshold : Int)
  deriving DecidableEq, Repr

namespace Policy

/-- The order that a policy needs; index order is any order. -/
def order? : Policy → Option Order
  | minIndex => none
  | minNumber => some .largestFirst
  | maxValueAge => some ⟨.valueAge, true⟩
  | minPriority _ => some ⟨.valueAge, false⟩

variable {τ : Type}

/-- The coins that are chosen out of coins in order. -/
def choose (p : Policy) (budget : Nat) (g : Goal) (coins : List (Coin × τ)) :
    Option (List (Coin × τ)) :=
  match p with
  | minPriority threshold => MinPriority.select budget threshold g coins
  | minIndex | minNumber | maxValueAge => g.scan budget coins

/-- How many positions are read when no selection is found: a scan reads no further than its
budget. -/
def reach (p : Policy) (budget size : Nat) : Nat :=
  match p with
  | minPriority _ => size
  | minIndex | minNumber | maxValueAge => min budget size

/-- The positions that are chosen in a source in order.  Reading stops at the first position that
cannot be read, which is a fault unless a selection is found before it or it is out of reach. -/
def choosePositions (p : Policy) (budget : Nat) (g : Goal) (slots : List Slot) :
    Except Fault (List Nat) :=
  let front := Slot.readable slots
  match p.choose budget g front.zipIdx with
  | some chosen => .ok (chosen.map (·.2))
  | none =>
      let fault := if front.length < p.reach budget slots.length then
        Slot.faultAt slots front.length else none
      .error (fault.getD (.noSelection g.target))

/-- The swaps that put a source in the order of a policy. -/
def swaps (p : Policy) (s : Source) : Except Fault (List (Nat × Nat)) :=
  match p.order? with
  | some o => s.sortSwaps o
  | none => .ok []

/-- Puts the source in order and chooses from it. -/
def apply (p : Policy) (budget : Nat) (g : Goal) (s : Source) : Except Fault (List Nat) × Source :=
  match p.swaps s with
  | .error fault => (.error fault, s)
  | .ok swaps =>
      let sorted := s.applySwaps swaps
      (p.choosePositions budget g sorted.slots, sorted)

/-- The selection under given arguments. -/
def run (p : Policy) (args : Args) (target : Float) (s : Source) :
    Except Fault (List Nat) × Source :=
  p.apply args.budget ⟨target, args.minChangeAmount⟩ s

end Policy

end CoinSelection
