/-
# CoinSelection.Sort.Swaps -- a permutation carried out by swaps

A list is brought into a wanted order from the left: at each place, the element that belongs there
is swapped in from further right unless it is there already.  So every swap settles the place on
its left for good, and a list of `n` elements needs fewer than `n` swaps.
-/

namespace CoinSelection.Sort

set_option autoImplicit false

variable {α : Type}

/-- The swaps that bring `held` into the order `wanted`, where both lists begin at the place `k`. -/
def swapsFrom [BEq α] (k : Nat) : List α → List α → List (Nat × Nat)
  | h :: held, w :: wanted =>
      if h == w then swapsFrom (k + 1) held wanted
      else
        let distance := held.idxOf w
        (k, k + 1 + distance) :: swapsFrom (k + 1) (held.set distance h) wanted
  | _, _ => []

/-- The swaps after which place `k` holds what place `order[k]` held before. -/
def swapsTo (order : List Nat) : List (Nat × Nat) := swapsFrom 0 (List.range order.length) order

/-- Swaps carried out one after the other. -/
def applySwaps (items : Array α) (swaps : List (Nat × Nat)) : Array α :=
  swaps.foldl (fun items s => items.swapIfInBounds s.1 s.2) items

@[simp] theorem size_applySwaps (items : Array α) (swaps : List (Nat × Nat)) :
    (applySwaps items swaps).size = items.size := by
  induction swaps generalizing items with
  | nil => rfl
  | cons s rest ih => simp [applySwaps] at ih ⊢; simp [ih]

/-- Swaps permute, whatever their order and whatever places they name. -/
theorem applySwaps_perm (items : Array α) (swaps : List (Nat × Nat)) :
    (applySwaps items swaps).Perm items := by
  induction swaps generalizing items with
  | nil => exact Array.Perm.refl _
  | cons s rest ih =>
    refine (ih _).trans ?_
    simp only [Array.swapIfInBounds]
    split
    · split
      · exact Array.swap_perm ..
      · exact Array.Perm.refl _
    · exact Array.Perm.refl _

end CoinSelection.Sort
