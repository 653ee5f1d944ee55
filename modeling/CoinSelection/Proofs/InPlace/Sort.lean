/-
# CoinSelection.Proofs.InPlace.Sort -- a sort that is carried out on an object

An exchange that works on the list itself comes to `Shelf.swap`, and has written nothing when it
fails (`Shelf.exchange_of_error`).  A plan only compares, so it leaves the objects as they are while
it is carried out; it fails for a coin that cannot be read, and otherwise it has read them all
(`Sort.Plan.Sorts.coin_of_run`, `Sort.Plan.Sorts.reads`).

So a sort in place ends in one of two ways: a comparison fails and nothing has been moved
(`InPlace.sortBy_error`), or all of its exchanges are made (`InPlace.sortBy_ok`).  A selection that
begins with such a sort is the selection of `InPlace.select` as soon as the sort has ended, if the
plan comes to the order that the policy needs (`InPlace.selectBy_eq_select`).
-/
import Mathlib
import CoinSelection.InPlace.Sort
import CoinSelection.Proofs.OrderLeft
import CoinSelection.Proofs.Sort.Tables
import CoinSelection.Proofs.Subset.Method

namespace CoinSelection

open scoped List

set_option autoImplicit false

/-! ## Comparisons -/

namespace Source

variable {s : Source} {o : Order} {i j : Nat} {fault : Fault}

theorem coin_of_less (fails : s.less o (.nat i) (.nat j) = .error fault) :
    s.coin (.nat i) = .error fault ∨ s.coin (.nat j) = .error fault := by
  unfold less at fails
  split at fails
  · rcases error_of_bind fails with second | ⟨b, -, fails⟩
    · exact .inr second
    · rcases error_of_bind fails with first | ⟨a, -, fails⟩
      · exact .inl first
      · cases fails
  · rcases error_of_bind fails with first | ⟨a, -, fails⟩
    · exact .inl first
    · rcases error_of_bind fails with second | ⟨b, -, fails⟩
      · exact .inr second
      · cases fails

theorem coin_of_compare (fails : s.compare o i j = .error fault) :
    s.coin (.nat i) = .error fault ∨ s.coin (.nat j) = .error fault := by
  rcases error_of_bind fails with first | ⟨lower, -, fails⟩
  · exact coin_of_less first
  · cases lower with
    | true => cases fails
    | false =>
        rcases error_of_bind fails with second | ⟨higher, -, fails⟩
        · exact (coin_of_less second).symm
        · cases higher <;> cases fails

/-- Coins that have been compared can be read. -/
theorem coins_of_compare {outcome : Ordering} (gives : s.compare o i j = .ok outcome) :
    (∃ a, s.coin (.nat i) = .ok a) ∧ ∃ b, s.coin (.nat j) = .ok b := by
  obtain ⟨lower, gives, -⟩ := exists_of_bind_ok gives
  unfold less at gives
  split at gives
  · obtain ⟨b, second, gives⟩ := exists_of_bind_ok gives
    obtain ⟨a, first, -⟩ := exists_of_bind_ok gives
    exact ⟨⟨a, first⟩, b, second⟩
  · obtain ⟨a, first, gives⟩ := exists_of_bind_ok gives
    obtain ⟨b, second, -⟩ := exists_of_bind_ok gives
    exact ⟨⟨a, first⟩, b, second⟩

end Source

/-! ## Plans -/

namespace Sort.Plan.Sorts

variable {source : Source} {o : Order} {n : Nat} {seen order : List Nat} {plan : Plan}

/-- A plan fails for a coin that cannot be read. -/
theorem coin_of_run (sorts : plan.Sorts n seen) {fault : Fault}
    (fails : plan.run (source.compare o) = .error fault) :
    ∃ k < n, source.coin (.nat k) = .error fault := by
  induction sorts with
  | done all perm => cases fails
  | @compare seen i j next left right rest ih =>
      rcases error_of_bind fails with here | ⟨outcome, -, later⟩
      · rcases Source.coin_of_compare here with first | second
        · exact ⟨i, left, first⟩
        · exact ⟨j, right, second⟩
      · exact ih outcome later

/-- A plan that is carried out has compared every coin of several, and comes to an order of all. -/
theorem reads (sorts : plan.Sorts n seen)
    (before : ∀ k ∈ seen, ∃ c, source.coin (.nat k) = .ok c)
    (gives : plan.run (source.compare o) = .ok order) :
    order ~ List.range n ∧ (2 ≤ n → ∀ k < n, ∃ c, source.coin (.nat k) = .ok c) := by
  induction sorts with
  | done all perm =>
      cases gives
      exact ⟨perm, fun several k inside => before k (all several k inside)⟩
  | @compare seen i j next left right rest ih =>
      obtain ⟨outcome, here, later⟩ := exists_of_bind_ok gives
      obtain ⟨first, second⟩ := Source.coins_of_compare here
      refine ih outcome ?_ later
      rintro k (_ | ⟨_, _ | ⟨_, earlier⟩⟩)
      · exact first
      · exact second
      · exact before k earlier

end Sort.Plan.Sorts

/-- Whether a plan comes to the order in which the coins of a source are put. -/
def Sort.Plan.Finds (plan : Sort.Plan) (o : Order) (source : Source) : Prop :=
  ∀ coins order, source.Shows coins → plan.run (source.compare o) = .ok order →
    order = o.permutation coins

/-! ## Exchanges in place -/

namespace Shelf

variable {α : Type} {shelf : Shelf} {items after : Array α} {i j : Index} {fault : Fault}

theorem lookUp_run (shelf : Shelf) (i : Index) (items : Array α) :
    (shelf.lookUp i).run items = (shelf.entry items i, items) := rfl

theorem toNat?_of_place {n : Fin items.size} (there : shelf.place items i = .ok n) :
    i.toNat? = some n.val := by
  unfold place Index.place? at there
  split at there
  · rename_i m found
    cases there
    obtain ⟨k, named, inside⟩ := Option.bind_eq_some_iff.1 found
    split at inside
    · cases inside
      exact named
    · cases inside
  · cases there

theorem lookUp_place {n : Fin items.size} (there : shelf.place items i = .ok n) :
    ∃ a, items[n.val]? = some a ∧ (shelf.lookUp i).run items = (.ok a, items) := by
  refine ⟨_, Array.getElem?_eq_getElem n.isLt, ?_⟩
  rw [lookUp_run, entry, there]
  rfl

theorem lookUp_fails (fails : shelf.place items i = .error fault) :
    (shelf.lookUp (α := α) i).run items = (.error fault, items) := by
  rw [lookUp_run, entry, fails]
  rfl

theorem write_run {n : Nat} (named : i.toNat? = some n) (a : α) (items : Array α) :
    (write i a).run items = (.ok (), items.setIfInBounds n a) := by
  show (Except.ok (), _) = _
  rw [named]

theorem exchange_of_swap (swaps : shelf.swap items i j = .ok after) :
    (shelf.exchange i j).run items = (.ok (), after) := by
  obtain ⟨m, first, swaps⟩ := exists_of_bind_ok swaps
  obtain ⟨n, second, swaps⟩ := exists_of_bind_ok swaps
  cases swaps
  obtain ⟨a, heldFirst, readFirst⟩ := lookUp_place first
  obtain ⟨b, heldSecond, readSecond⟩ := lookUp_place second
  rw [exchange, run_bind, readFirst]
  dsimp only
  rw [run_bind, readSecond]
  dsimp only
  rw [run_bind, write_run (toNat?_of_place first)]
  dsimp only
  rw [write_run (toNat?_of_place second)]
  obtain ⟨-, rfl⟩ := Array.getElem?_eq_some_iff.1 heldFirst
  obtain ⟨-, rfl⟩ := Array.getElem?_eq_some_iff.1 heldSecond
  simp [Array.swap_def, Array.setIfInBounds_def]

theorem exchange_of_error (fails : shelf.swap items i j = .error fault) :
    (shelf.exchange i j).run items = (.error fault, items) := by
  rcases error_of_bind fails with first | ⟨m, first, fails⟩
  · rw [exchange, run_bind, lookUp_fails first]
  · rcases error_of_bind fails with second | ⟨n, second, fails⟩
    · obtain ⟨a, -, readFirst⟩ := lookUp_place first
      rw [exchange, run_bind, readFirst]
      dsimp only
      rw [run_bind, lookUp_fails second]
    · cases fails

end Shelf

theorem Policy.swaps_eq_sortSwaps {p : Policy} {o : Order} (orders : p.order? = some o)
    (source : Source) : p.swaps source = source.sortSwaps o := by
  rw [swaps, orders]

namespace InPlace

open MinPriority.Checked (Step Limits firstReaching)

variable {s : Session} {ref : Nat} {source source' : Source} {i j : Index}
variable {fault : Fault} {o : Order} {p : Policy} {plan : Sort.Plan} {order : List Nat}

theorem exchange_ok (there : s.source? ref = some source) (swaps : source.swap i j = .ok source') :
    exchange ref i j s = some (.ok (), s.reorder ref source') := by
  cases source with
  | collection coins =>
      obtain ⟨coins', moved, same⟩ := exists_of_bind_ok swaps
      cases same
      have held := Session.source?_eq_collection.1 there
      rw [Session.reorder_collection held]
      simp only [exchange, ExceptT.mk, held, Shelf.exchange_of_swap moved, Step.of_ok]
  | window below positions =>
      obtain ⟨positions', moved, same⟩ := exists_of_bind_ok swaps
      cases same
      obtain ⟨k, -, held, -⟩ := Session.source?_eq_window.1 there
      rw [Session.reorder_window held]
      simp only [exchange, ExceptT.mk, held, Shelf.exchange_of_swap moved, Step.of_ok]

theorem exchange_error (there : s.source? ref = some source)
    (fails : source.swap i j = .error fault) :
    exchange ref i j s = some (.error (.fault fault), s) := by
  cases source with
  | collection coins =>
      have held := Session.source?_eq_collection.1 there
      rcases error_of_bind fails with stops | ⟨after, -, fails⟩
      · simp only [exchange, ExceptT.mk, held, Shelf.exchange_of_error stops, Session.set_self held]
        rfl
      · cases fails
  | window below positions =>
      obtain ⟨k, -, held, -⟩ := Session.source?_eq_window.1 there
      rcases error_of_bind fails with stops | ⟨after, -, fails⟩
      · simp only [exchange, ExceptT.mk, held, Shelf.exchange_of_error stops, Session.set_self held]
        rfl
      · cases fails

/-! ## Sorting in place -/

theorem compare_eq (there : s.source? ref = some source) (o : Order) (i j : Nat) :
    compare o ref i j s = some (Step.of (source.compare o i j), s) := by
  rw [compare, bind_ok (look_eq there)]
  rfl

/-- Comparisons change nothing, so all of them are made on the same source. -/
theorem run_eq_run (there : s.source? ref = some source) (plan : Sort.Plan) (o : Order) :
    plan.run (compare o ref) s = some (Step.of (plan.run (source.compare o)), s) := by
  induction plan with
  | done order => rfl
  | compare i j next ih =>
      have here := compare_eq there o i j
      rw [Sort.Plan.run, Sort.Plan.run]
      cases compares : source.compare o i j with
      | error fault =>
          rw [compares] at here
          exact bind_error here
      | ok outcome =>
          rw [compares] at here
          exact (bind_ok here).trans (ih outcome)

theorem sortBy_error (there : s.source? ref = some source)
    (fails : plan.run (source.compare o) = .error fault) :
    sortBy plan o ref s = some (.error (.fault fault), s) := by
  have runs := run_eq_run there plan o
  rw [fails] at runs
  exact bind_error runs

theorem sortBy_ok (there : s.source? ref = some source)
    (gives : plan.run (source.compare o) = .ok order) (perm : order ~ List.range source.size) :
    sortBy plan o ref s = some (.ok (), s.reorder ref (source.inOrder order)) := by
  have runs := run_eq_run there plan o
  rw [gives] at runs
  have length : order.length = source.size := by simpa using perm.length_eq
  rw [sortBy, bind_ok runs, length, Sort.Tables.swaps_start perm,
    exchanges_eq (fun there first second => exchange_ok there (Source.swap_nat first second)) there
      (Sort.swapsTo_inside perm), source.applySwaps_swapsTo perm]

/-! ## Selections -/

theorem select_eq_choose (there : s.source? ref = some source) (p : Policy) (limits : Limits)
    (target : Float) :
    select p limits target ref s = (arrange p ref >>= fun _ => choose p limits target ref) s := by
  cases p with
  | minPriority threshold =>
      show run limits threshold target ref s = _
      rw [run_eq, level, sizeAt_eq there]
      cases sorts : (Policy.minPriority threshold).swaps source with
      | error fault =>
          have stops := arrange_error there sorts
          rw [bind_error stops, bind_error stops]
      | ok swaps =>
          have sorted := arrange_ok there sorts
          have there' := Session.source?_reorder there (source.rearranged_applySwaps swaps)
          rw [bind_ok sorted, bind_ok sorted, choose, bind_ok (look_eq there'),
            bind_ok (look_eq there'), Source.size_applySwaps]
          dsimp only
          cases firstReaching threshold (source.applySwaps swaps) (List.range source.size) with
          | error mishap => rfl
          | ok reaching =>
              cases reaching with
              | none => rfl
              | some cutoff => rfl
  | _ =>
      simp only [select, scan, choose, bind_assoc]

/-- A sort by a plan that comes to the order of the policy is the sort of the policy. -/
theorem sortBy_eq_arrange (there : s.source? ref = some source) (orders : p.order? = some o)
    (sorts : plan.Sorts source.size []) (finds : plan.Finds o source)
    (runs : plan.run (source.compare o) = .ok order) :
    sortBy plan o ref s = arrange p ref s := by
  obtain ⟨perm, read⟩ := sorts.reads (by simp) runs
  have swaps : p.swaps source = .ok (Sort.swapsTo order) := by
    rw [Policy.swaps_eq_sortSwaps orders]
    by_cases several : 2 ≤ source.size
    · obtain ⟨coins, shown⟩ := exists_map_ok fun k listed => read several k (List.mem_range.1 listed)
      rw [finds coins order shown runs]
      exact Source.Shows.sortSwaps_eq shown o
    · -- a coin alone need not be readable, but there is one order only
      have inPlace : order = List.range source.size := by
        obtain none | one : source.size = 0 ∨ source.size = 1 := by omega
        · rw [none] at perm ⊢
          exact perm.eq_nil
        · rw [one] at perm ⊢
          exact List.perm_singleton.1 perm
      rw [Source.sortSwaps, if_pos (by omega), inPlace, Sort.swapsTo_range]
  rw [sortBy_ok there runs perm, arrange_ok there swaps, source.applySwaps_swapsTo perm]

theorem selectBy_eq_select (there : s.source? ref = some source) (orders : p.order? = some o)
    (sorts : plan.Sorts source.size []) (finds : plan.Finds o source)
    (runs : plan.run (source.compare o) = .ok order) (limits : Limits)
    (target : Float) :
    selectBy plan o p limits target ref s = select p limits target ref s := by
  have same := sortBy_eq_arrange there orders sorts finds runs
  obtain ⟨perm, -⟩ := sorts.reads (by simp) runs
  have sorted := sortBy_ok there runs perm
  rw [select_eq_choose there, selectBy, bind_ok sorted, bind_ok (same ▸ sorted)]

end InPlace

end CoinSelection
