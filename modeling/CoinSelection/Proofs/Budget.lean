/-
# CoinSelection.Proofs.Budget -- room for more coins loses no selection

A scan that stops within a budget stops at the same place within a larger one
(`Goal.shortestPrefix_of_le`), so the policies that scan select the same.

The search for a least average may select otherwise: an earlier window may pay, more low coins may
be added, and more numbers of them be tried.  But each of its steps that succeeds still does, though
perhaps in another way (`attempt_of_le`).  A window that is topped up with `n` low coins asks for
`n` of them whatever the budget is, so the inner search is the same one, and there is no induction
on searches.

Nothing is assumed of amounts or value-ages, or of whether all coins can be read.
-/
import Mathlib
import CoinSelection.Proofs.Policy

namespace CoinSelection

set_option autoImplicit false

variable {τ : Type} {budget budget' : Nat} {g : Goal}

/-! ## Scans -/

namespace Goal

theorem shortestPrefix_of_le (le : budget ≤ budget') {total : Float} {amounts : List Float}
    {k : Nat} (found : g.shortestPrefix budget total amounts = some k) :
    g.shortestPrefix budget' total amounts = some k := by
  rw [shortestPrefix_eq_some_iff] at found ⊢
  obtain ⟨pos, within, inside, met, least⟩ := found
  exact ⟨pos, within.trans le, inside, met, least⟩

variable {coins chosen : List (Coin × τ)}

theorem scan_of_le (le : budget ≤ budget') (found : g.scan budget coins = some chosen) :
    g.scan budget' coins = some chosen := by
  obtain ⟨k, shortest, rfl⟩ := Option.map_eq_some_iff.1 found
  rw [scan, shortestPrefix_of_le le shortest, Option.map_some]

theorem fewest_of_le (le : budget ≤ budget') (found : g.fewest budget coins = some chosen) :
    g.fewest budget' coins = some chosen :=
  scan_of_le le found

end Goal

/-! ## Searches -/

namespace MinPriority

variable {threshold : Int} {coins : List (Coin × τ)}

/-- The number of low coins that worked is still among those that are tried. -/
theorem topUp_of_le {search : Nat → Int → Goal → Option (List (Coin × τ))} {most : Array Float}
    {low : Nat} {window : List (Coin × τ)} (le : budget ≤ budget')
    (found : (topUp search most low budget threshold g window).isSome) :
    (topUp search most low budget' threshold g window).isSome := by
  rw [topUp_eq, List.findSome?_isSome_iff] at found ⊢
  obtain ⟨n, listed, works⟩ := found
  have bounds := List.mem_range'_1.1 listed
  exact ⟨n, List.mem_range'_1.2 (by omega), works⟩

/-- A window that gave a selection still gives one: it pays by itself as before, or by itself only
now, or it is topped up. -/
theorem attempt_of_le {size : Nat} (le : budget ≤ budget')
    (found : (attempt budget threshold g coins size).isSome) :
    (attempt budget' threshold g coins size).isSome := by
  unfold attempt at found ⊢
  dsimp only at found ⊢
  cases wider : g.fewest budget' ((high threshold coins).take size) with
  | some chosen => rfl
  | none =>
      have narrower : g.fewest budget ((high threshold coins).take size) = none := by
        by_contra some
        obtain ⟨chosen, pays⟩ := Option.ne_none_iff_exists'.1 some
        rw [Goal.fewest_of_le le pays] at wider
        cases wider
      rw [narrower] at found
      exact topUp_of_le le found

theorem select_of_le (le : budget ≤ budget') (found : (select budget threshold g coins).isSome) :
    (select budget' threshold g coins).isSome := by
  rw [select_eq, List.findSome?_isSome_iff] at found ⊢
  obtain ⟨size, listed, gives⟩ := found
  exact ⟨size, listed, attempt_of_le le gives⟩

end MinPriority

/-! ## Policies -/

theorem Policy.choose_of_le {p : Policy} {coins chosen : List (Coin × τ)} (le : budget ≤ budget')
    (chooses : p.choose budget g coins = some chosen) :
    ∃ chosen', p.choose budget' g coins = some chosen' ∧
      ((∀ threshold, p ≠ .minPriority threshold) → chosen' = chosen) := by
  cases p with
  | minPriority threshold =>
      obtain ⟨chosen', selected⟩ := Option.isSome_iff_exists.1
        (MinPriority.select_of_le le (Option.isSome_iff_exists.2 ⟨chosen, chooses⟩))
      exact ⟨chosen', selected, fun isScan => absurd rfl (isScan threshold)⟩
  | minIndex => exact ⟨chosen, Goal.scan_of_le le chooses, fun _ => rfl⟩
  | minNumber => exact ⟨chosen, Goal.scan_of_le le chooses, fun _ => rfl⟩
  | maxValueAge => exact ⟨chosen, Goal.scan_of_le le chooses, fun _ => rfl⟩

/-- A selection that is found within a budget is not lost when the budget grows: there is one again,
and for a policy that scans it is the same one.  The coins are left in the same order. -/
theorem Policy.run_larger_budget {args args' : Args} (le : args.budget ≤ args'.budget)
    (change : args'.minChangeAmount = args.minChangeAmount) (p : Policy) {target : Float}
    {s sorted : Source} {places : List Nat} (found : p.run args target s = (.ok places, sorted)) :
    ∃ places', p.run args' target s = (.ok places', sorted) ∧
      ((∀ threshold, p ≠ .minPriority threshold) → places' = places) := by
  unfold run apply at found ⊢
  rw [change]
  cases ordering : p.swaps s with
  | error fault =>
      rw [ordering] at found
      cases found
  | ok swaps =>
      simp only [ordering, Prod.mk.injEq] at found ⊢
      obtain ⟨answer, rfl⟩ := found
      unfold choosePositions at answer ⊢
      dsimp only at answer ⊢
      split at answer
      · rename_i chosen chooses
        cases answer
        obtain ⟨chosen', chooses', same⟩ := choose_of_le le chooses
        refine ⟨chosen'.map (·.2), ⟨?_, rfl⟩, ?_⟩
        · rw [chooses']
        · intro isScan
          rw [same isScan]
      · cases answer

/-- Room for a second coin: the search adds a low one, and the scan selects as before. -/
theorem Policy.run_larger_budget_padded :
    ∃ (args args' : Args) (s : Source) (places scanned : List Nat),
      args.budget = 1 ∧ args'.budget = 2 ∧
      ((Policy.minPriority 3).run args 8 s).1.toOption = some [1] ∧
      ((Policy.minPriority 3).run args' 8 s).1.toOption = some places ∧ places = [1, 0] ∧
      (Policy.minNumber.run args 8 s).1.toOption = some [0] ∧
      (Policy.minNumber.run args' 8 s).1.toOption = some scanned ∧ scanned = [0] := by
  let args : Args := ⟨1, 0, by decide +kernel, by decide +kernel⟩
  let args' : Args := ⟨2, 0, by decide +kernel, by decide +kernel⟩
  let s : Source := .collection #[⟨"aged", 8, 10⟩, ⟨"young", 3, 2⟩]
  have le : args.budget ≤ args'.budget := by decide +kernel
  have searched : ((Policy.minPriority 3).run args 8 s).1.toOption = some [1] := by decide +kernel
  have scanned : (Policy.minNumber.run args 8 s).1.toOption = some [0] := by decide +kernel
  have padded : ((Policy.minPriority 3).run args' 8 s).1.toOption = some [1, 0] := by
    decide +kernel
  obtain ⟨places, searched', -⟩ :=
    Policy.run_larger_budget le rfl (.minPriority 3) (eq_ok_of_toOption searched)
  obtain ⟨places', scanned', same⟩ :=
    Policy.run_larger_budget le rfl .minNumber (eq_ok_of_toOption scanned)
  rw [searched'] at padded
  refine ⟨args, args', s, places, places', by decide +kernel, by decide +kernel, searched, ?_,
    Option.some.inj padded, scanned, ?_, same nofun⟩
  · rw [searched']
    rfl
  · rw [scanned']
    rfl

end CoinSelection
