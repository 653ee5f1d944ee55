/-
# CoinSelection.Sort.Tables -- the swaps of a permutation, with tables

The swaps that carry out a permutation, found without a search: two tables say which element is at
each place and at which place each element is.  The elements are named by the places that they had
at first.  A swap changes both tables, and each of them at two entries.
-/

namespace CoinSelection.Sort

set_option autoImplicit false

structure Tables where
  /-- The element at each place. -/
  held : Array Nat
  /-- The place of each element. -/
  place : Array Nat

namespace Tables

/-- Every element is at its own place. -/
def start (n : Nat) : Tables := ⟨Array.range n, Array.range n⟩

/-- The element `here` of the place `k`, and the element `want` of the place `found`, exchanged. -/
def exchange (t : Tables) (k here found want : Nat) : Tables where
  held := (t.held.setIfInBounds k want).setIfInBounds found here
  place := (t.place.setIfInBounds want k).setIfInBounds here found

/-- The swaps from the place `k` on, for the elements that are wanted there and further on. -/
def swaps (k : Nat) (t : Tables) : List Nat → List (Nat × Nat)
  | [] => []
  | want :: wanted =>
      match t.place[want]?, t.held[k]? with
      | some found, some here =>
          if found = k then swaps (k + 1) t wanted
          else (k, found) :: swaps (k + 1) (t.exchange k here found want) wanted
      | _, _ => swaps (k + 1) t wanted

end Tables

end CoinSelection.Sort
