/-
# CoinSelection.Proofs.MinPriority.Reach -- what a number of coins can reach

`reachable` lists the sums of the largest amounts.  No choice of that many coins, or of fewer, is
worth more (`worth_le_take`): an exchange argument on descending lists (`sum_le_sum_take_length`).
So a number of coins that is passed over because it cannot reach what is missing could not have paid
for it (`mayReach_of_paid`).
-/
import Mathlib
import CoinSelection.Proofs.Counted
import CoinSelection.MinPriority

namespace CoinSelection

open Binary64 (Exact lastExact exact_zero)
open scoped List

set_option autoImplicit false

variable {τ : Type}

/-! ## Descending lists -/

section Descending

variable {xs ys : List Int}

/-- As many of a descending list as are taken out of it, from the front, have no smaller sum. -/
theorem sum_le_sum_take_length (sublist : xs <+ ys) (sorted : ys.Pairwise (· ≥ ·)) :
    xs.sum ≤ (ys.take xs.length).sum := by
  induction sublist with
  | slnil => simp
  | @cons xs ys y sublist ih =>
      refine (ih sorted.tail).trans ?_
      match counted : xs.length with
      | 0 => simp
      | n + 1 =>
          -- the last one that is counted without the head gives way to it
          have there : n < ys.length := counted.symm.trans_le sublist.length_le
          have le := List.rel_of_pairwise_cons sorted (List.getElem_mem there)
          rw [List.take_succ_cons, List.sum_cons, List.take_succ_eq_append_getElem there,
            List.sum_append, List.sum_singleton]
          omega
  | @cons_cons xs ys y sublist ih =>
      have rest := ih sorted.tail
      rw [List.length_cons, List.take_succ_cons, List.sum_cons, List.sum_cons]
      omega

/-- The first `n` of a descending list have the largest sum of all `n`. -/
theorem sum_le_sum_take (sublist : xs <+ ys) (sorted : ys.Pairwise (· ≥ ·))
    (nonneg : ∀ y ∈ ys, 0 ≤ y) {n : Nat} (few : xs.length ≤ n) : xs.sum ≤ (ys.take n).sum := by
  refine (sum_le_sum_take_length sublist sorted).trans ?_
  apply (List.take_sublist_take_left few).sum_le_sum
  intro y listed
  exact nonneg y (List.mem_of_mem_take listed)

end Descending

/-! ## Largest amounts first -/

section Largest

variable {coins chosen : List (Coin × τ)}

theorem CountedCoins.exact_amount (counted : CountedCoins coins) {c : Coin × τ}
    (inside : c ∈ coins) : Exact c.1.amount c.1.units :=
  (counted.subperm (List.singleton_sublist.2 inside).subperm).1.addable.head

/-- Amounts that are counted can be compared. -/
theorem CountedCoins.comparable {coins : List Coin} (counted : CountedCoins coins.zipIdx) :
    ∀ c ∈ coins, c.amount.isNaN = false := by
  intro c inside
  obtain ⟨k, there⟩ := List.mem_iff_getElem?.1 inside
  have listed : (c, k) ∈ coins.zipIdx := List.mem_zipIdx_iff_getElem?.2 there
  exact (counted.exact_amount listed).isNaN

/-- Counted coins are ordered as their integers are. -/
theorem CountedCoins.arrange_eq (counted : CountedCoins coins) :
    Order.largestFirst.arrange coins =
      coins.mergeSort fun a b => decide (b.1.units ≤ a.1.units) := by
  have comparable : ∀ c ∈ coins, Order.largestFirst.measure.comparable c.1 := by
    intro c inside
    show (!c.1.amount.isNaN) = true
    rw [(counted.exact_amount inside).isNaN]
    rfl
  rw [Order.arrange_eq_mergeSort comparable]
  have same := List.map_mergeSort (l := coins) (f := id) (r := Order.largestFirst.notAfter)
    (s := fun a b => decide (b.1.units ≤ a.1.units)) fun a inA b inB => by
      have compare := (counted.exact_amount inA).lt_iff (counted.exact_amount inB)
      simp [Order.notAfter, Order.less, Order.largestFirst, Measure.less, compare, ← decide_not]
  simpa using same

theorem CountedCoins.descending (counted : CountedCoins coins) :
    ((Order.largestFirst.arrange coins).map (·.1.units)).Pairwise (· ≥ ·) := by
  rw [counted.arrange_eq, List.pairwise_map]
  have sorted : (coins.mergeSort fun a b => decide (b.1.units ≤ a.1.units)).Pairwise
      fun a b => decide (b.1.units ≤ a.1.units) = true :=
    List.pairwise_mergeSort
      (fun a b c ab bc => by
        rw [decide_eq_true_iff] at ab bc ⊢
        exact bc.trans ab)
      (fun a b => by simpa using le_total b.1.units a.1.units) coins
  exact sorted.imp fun le => by simpa using le

/-- The largest coins are worth the most. -/
theorem worth_le_take (counted : CountedCoins coins) (among : chosen <+~ coins) {n : Nat}
    (few : chosen.length ≤ n) :
    worth chosen ≤ worth ((Order.largestFirst.arrange coins).take n) := by
  have perm := Order.largestFirst.arrange_perm coins
  obtain ⟨same, samePerm, sublist⟩ := among.trans perm.symm.subperm
  have nonneg : ∀ u ∈ (Order.largestFirst.arrange coins).map (·.1.units), 0 ≤ u := by
    intro u listed
    obtain ⟨c, inside, rfl⟩ := List.mem_map.1 listed
    exact Coin.units_nonneg (counted.whole c (perm.mem_iff.1 inside))
  have most := sum_le_sum_take (sublist.map (·.1.units)) counted.descending nonneg
    (n := n) (by rwa [List.length_map, samePerm.length_eq])
  rw [← List.map_take] at most
  rw [← worth_perm samePerm]
  exact most

end Largest

/-! ## Passing over -/

namespace MinPriority

variable {coins chosen : List (Coin × τ)}

theorem getElem?_partialSums (total : Float) (amounts : List Float) {n : Nat}
    (inside : n ≤ amounts.length) :
    (partialSums total amounts)[n]? = some ((amounts.take n).foldl (· + ·) total) := by
  induction amounts generalizing total n with
  | nil => simp [partialSums, Nat.le_zero.1 inside]
  | cons amount rest ih =>
      match n with
      | 0 => simp [partialSums]
      | n + 1 =>
          rw [partialSums, List.getElem?_cons_succ, ih _ (Nat.le_of_succ_le_succ inside)]
          rfl

theorem getElem?_reachable (coins : List (Coin × τ)) {n : Nat} (inside : n ≤ coins.length) :
    (reachable coins)[n]? =
      some ((((Order.largestFirst.arrange coins).take n).map (·.1.amount)).foldl (· + ·) 0) := by
  have amounts : Order.largestFirst.amounts (coins.map (·.1)) =
      (Order.largestFirst.arrange coins).map (·.1.amount) := by
    have untagged := Order.largestFirst.map_arrange (fun _ => ()) coins
    rw [Order.amounts, List.map_map]
    exact (congrArg _ untagged).trans (List.map_map ..)
  rw [reachable, amounts, List.getElem?_toArray, List.map_take]
  exact getElem?_partialSums _ _ (by simpa using inside)

/-- Coins that pay for what is missing are not passed over. -/
theorem mayReach_of_paid {g : Goal} (goal : g.Counted) (change : 0 ≤ Whole.units g.minChange)
    (counted : CountedCoins coins) (among : chosen <+~ coins) {n : Nat} (few : chosen.length ≤ n)
    (inside : n ≤ coins.length) (paid : g.due.Paid (worth chosen)) :
    mayReach (reachable coins) n g.target := by
  have front : (Order.largestFirst.arrange coins).take n <+~ coins :=
    (List.take_sublist _ _).subperm.trans (Order.largestFirst.arrange_perm coins).subperm
  have most := (counted.subperm front).1.addable.exact_foldl exact_zero
  have bound := worth_le_take counted among few
  have enough : ¬ (((Order.largestFirst.arrange coins).take n).map (·.1.amount)).foldl
      (· + ·) 0 < g.target := by
    rw [most.lt_iff goal.target, not_lt]
    simp only [Due.Paid, Goal.due] at paid
    omega
  rw [mayReach, getElem?_reachable coins inside, Option.any_some, decide_eq_false enough]
  rfl

end MinPriority

end CoinSelection
