/-
# CoinSelection.Proofs.FewSwaps -- a stable sort through few swaps

Sorting a source whose amounts can be compared puts it in the stable order, and the swaps that do so
waste nothing: each settles a place, from the left to the right, and together with the cycles of
the permutation from the old to the new places they are as many as there are coins
(`sortSwaps_stable`).

The order is ascending by one measure, or has been reversed any number of times.  Reversing
exchanges the two sides of the comparison and leaves the sort stable.
-/
import Mathlib
import CoinSelection.Proofs.OrderLeft
import CoinSelection.Proofs.Sort.Cycles
import CoinSelection.Proofs.Sort.Tables

namespace CoinSelection

open Equiv (Perm)
open scoped List

set_option autoImplicit false

variable {source : Source} {coins : List Coin}

/-! ## Orders that have been reversed -/

namespace Order

/-- Reversing an even number of times changes nothing, and an odd number of times exchanges the two
sides. -/
theorem less_iterate_reverse (m : Measure) (times : Nat) (a b : Coin) :
    (reverse^[times] (ascending m)).less a b = if Even times then m.less a b else m.less b a := by
  induction times generalizing a b with
  | zero => simp [ascending, less]
  | succ times ih =>
      rw [Function.iterate_succ_apply', less_reverse, ih]
      by_cases even : Even times <;> simp [Nat.even_add_one, even]

/-- The coins at the places that the permutation names, in its order. -/
theorem filterMap_permutation (o : Order) (coins : List Coin) :
    (o.permutation coins).filterMap (coins[·]?) = (o.arrange coins.zipIdx).map (·.1) := by
  rw [← arrange_zipIdx, List.filterMap_map, ← List.filterMap_eq_map]
  apply List.filterMap_congr
  intro c placed
  exact List.mem_zipIdx_iff_getElem?.1 ((o.arrange_perm coins.zipIdx).mem_iff.1 placed)

/-- What stands at a place of which the former one is known. -/
theorem getElem?_arrange {o : Order} {i : Nat} (inside : i < coins.length) {p : Nat}
    (moved : (o.permutation coins)[p]? = some i) :
    (o.arrange coins.zipIdx)[p]? = some (coins[i], i) := by
  rw [← arrange_zipIdx, List.getElem?_map, Option.map_eq_some_iff] at moved
  obtain ⟨c, stands, rfl⟩ := moved
  have listed := (o.arrange_perm coins.zipIdx).mem_iff.1 (List.mem_of_getElem? stands)
  have read := List.mem_zipIdx_iff_getElem?.1 listed
  rw [List.getElem?_eq_getElem inside, Option.some.injEq] at read
  rw [stands, read]

end Order

/-! ## Swaps in a source -/

namespace Source

/-- Exchanges of places that are there, one after the other. -/
theorem foldlM_swap {s : Source} {swaps : List (Nat × Nat)}
    (inside : ∀ w ∈ swaps, w.1 < w.2 ∧ w.2 < s.size) :
    swaps.foldlM (fun s w => s.swap (.nat w.1) (.nat w.2)) s = .ok (s.applySwaps swaps) := by
  induction swaps generalizing s with
  | nil =>
      rw [applySwaps_nil]
      rfl
  | cons w swaps ih =>
      obtain ⟨⟨below, bound⟩, others⟩ := List.forall_mem_cons.1 inside
      rw [List.foldlM_cons, swap_nat (below.trans bound) bound]
      exact (ih (by simpa using others)).trans (congrArg _ (applySwaps_cons s w swaps))

/-- After a swap, the source shows its final coins up to the place that was settled. -/
theorem slots_settled (s : Source) {order : List Nat} {n : Nat} (perm : order ~ List.range n)
    {done rest : List (Nat × Nat)} {w : Nat × Nat} (split : Sort.swapsTo order = done ++ w :: rest)
    {p : Nat} (settled : p ≤ w.1) :
    (s.applySwaps (done ++ [w])).slots[p]? = (s.applySwaps (Sort.swapsTo order)).slots[p]? := by
  rw [slots_applySwaps, slots_applySwaps, Array.getElem?_toList, Array.getElem?_toList]
  exact Sort.getElem?_applySwaps_of_le perm _ split settled

end Source

/-- A source is sorted by swaps that are found with two tables.  They put it in the one stable
order; each of them settles a place for good; and they are as few as the cycles of the permutation
allow, none if the coins are in order already. -/
theorem sortSwaps_stable (shown : source.Shows coins)
    (amounts : ∀ c ∈ coins, c.amount.isNaN = false) (m : Measure) (reversals : Nat) {o : Order}
    (isReversed : o = Order.reverse^[reversals] (.ascending m)) :
    ∃ (swaps : List (Nat × Nat)) (placed : List (Coin × Nat)) (σ : Perm (Fin coins.length)),
      (∀ a b, o.less a b = if Even reversals then m.less a b else m.less b a) ∧
      source.sortSwaps o = .ok swaps ∧
      swaps = (Sort.Tables.start coins.length).swaps 0 (o.permutation coins) ∧
      swaps.foldlM (fun s w => s.swap (.nat w.1) (.nat w.2)) source =
        .ok (source.applySwaps swaps) ∧
      (source.applySwaps swaps).Shows (placed.map (·.1)) ∧
      o.StablyPlaced coins placed ∧ (∀ placed', o.StablyPlaced coins placed' → placed' = placed) ∧
      (∀ i : Fin coins.length, placed[(σ i : Nat)]? = some (coins[i], (i : Nat))) ∧
      Sort.Frugal σ swaps ∧ swaps.length ≤ coins.length - 1 ∧
      (∀ done w rest, swaps = done ++ w :: rest → ∀ p ≤ w.1,
        (source.applySwaps (done ++ [w])).slots[p]? = placed[p]?.map fun c => .ok c.1) ∧
      (coins.Pairwise (fun a b => o.less b a = false) → swaps = []) := by
  have comparable := Policy.comparable_of_amounts amounts o
  have stable := Order.stablyPlaced_arrange comparable
  have perm := o.permutation_perm coins
  have shows : (source.applySwaps (Sort.swapsTo (o.permutation coins))).Shows
      ((o.arrange coins.zipIdx).map (·.1)) := by
    rw [← o.filterMap_permutation]
    exact shown.reordered perm
  have slots : (source.applySwaps (Sort.swapsTo (o.permutation coins))).slots = _ := shows
  obtain ⟨σ, moved, frugal⟩ := Sort.exists_frugal perm
  have made := Source.foldlM_swap (shown.size_eq ▸ frugal.inside)
  refine ⟨Sort.swapsTo (o.permutation coins), o.arrange coins.zipIdx, σ, ?_,
    shown.sortSwaps_eq o, (Sort.Tables.swaps_start perm).symm, made, shows, stable, ?_, ?_, frugal,
    frugal.length_le, ?_, ?_⟩
  · intro a b
    rw [isReversed]
    exact Order.less_iterate_reverse m reversals a b
  · intro placed' stable'
    exact stable'.unique comparable stable
  · intro i
    exact Order.getElem?_arrange i.2 (moved i)
  · intro done w rest split p settled
    rw [source.slots_settled perm split settled, slots, List.map_map, List.getElem?_map]
    rfl
  · intro sorted
    have still := stable.unique comparable (Order.stablyPlaced_zipIdx sorted)
    rw [← Order.arrange_zipIdx, still, List.zipIdx_map_snd, ← List.range_eq_range',
      Sort.swapsTo_range]

/-- Four coins in a window, two of them alike, in an order that has been reversed three times: all
go round in one cycle, so three swaps are needed. -/
theorem sortSwaps_stable_cycle :
    ∃ (source : Source) (coins : List Coin) (placed : List (Coin × Nat)) (σ : Perm (Fin 4)),
      source.Shows coins ∧ coins.map (·.label) = ["a", "b", "c", "d"] ∧
      source.sortSwaps (Order.reverse^[3] (.ascending .amount)) = .ok [(0, 2), (1, 3), (2, 3)] ∧
      (source.applySwaps [(0, 2), (1, 3), (2, 3)]).Shows (placed.map (·.1)) ∧
      placed.map (·.1.label) = ["c", "d", "b", "a"] ∧ Sort.cycles σ = 1 := by
  let coins : List Coin := [⟨"a", 1, 0⟩, ⟨"b", 2, 0⟩, ⟨"c", 3, 0⟩, ⟨"d", 3, 0⟩]
  let source : Source := .window
    (.collection #[⟨"d", 3, 0⟩, ⟨"c", 3, 0⟩, ⟨"a", 1, 0⟩, ⟨"b", 2, 0⟩])
    #[.nat 2, .nat 3, .nat 1, .nat 0]
  have shown : source.Shows coins := by rfl
  obtain ⟨swaps, placed, σ, -, sorts, found, -, shows, -, -, -, frugal, -, -, -⟩ :=
    sortSwaps_stable shown (by decide +kernel) .amount 3 rfl
  have three : (Sort.Tables.start coins.length).swaps 0
      ((Order.reverse^[3] (.ascending .amount)).permutation coins) = [(0, 2), (1, 3), (2, 3)] := by
    decide +kernel
  have after : ((source.applySwaps [(0, 2), (1, 3), (2, 3)]).slots.filterMap
      Except.toOption).map (·.label) = ["c", "d", "b", "a"] := by
    decide +kernel
  rw [three] at found
  subst found
  rw [shows.filterMap_toOption, List.map_map] at after
  refine ⟨source, coins, placed, σ, shown, rfl, sorts, shows, after, ?_⟩
  have count : 3 + Sort.cycles σ = 4 := frugal.count
  omega

end CoinSelection
