/-
# CoinSelection.Sort.Plan -- sorts as plans of comparisons

A sort that knows its elements by comparison alone is a `Plan`: which two elements it compares
first, and how it goes on from each outcome, down to the order in which it leaves them.  Elements
are named by the places that they had at first, and nothing is moved before the plan is done.

`Plan.run` carries out a plan with comparisons that can fail.
-/

namespace CoinSelection.Sort

set_option autoImplicit false

inductive Plan where
  /-- The places that the elements had at first, in their new order. -/
  | done (order : List Nat)
  /-- Compares two elements and goes on by the outcome. -/
  | compare (i j : Nat) (next : Ordering → Plan)

namespace Plan

/-- The order that a plan comes to. -/
def run {m : Type → Type} [Monad m] (outcome : Nat → Nat → m Ordering) : Plan → m (List Nat)
  | done order => pure order
  | compare i j next => do
      let found ← outcome i j
      (next found).run outcome

/-- A plan for `n` elements, of which some have been `seen` before.  Whatever the outcomes are, it
compares none but these, sees each of them if there are several, and comes to an order of them
all. -/
inductive Sorts (n : Nat) : List Nat → Plan → Prop
  | done {seen order : List Nat} (all : 2 ≤ n → ∀ k < n, k ∈ seen)
      (perm : order.Perm (List.range n)) : Sorts n seen (.done order)
  | compare {seen : List Nat} {i j : Nat} {next : Ordering → Plan} (left : i < n) (right : j < n)
      (rest : ∀ outcome, Sorts n (i :: j :: seen) (next outcome)) :
      Sorts n seen (.compare i j next)

end Plan

end CoinSelection.Sort
