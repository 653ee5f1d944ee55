/-
# CoinSelection.Proofs.MinPriority.Sound -- what is found pays and averages the threshold

A top-up is searched for what the window lacks, and the whole is not tested again.  That it pays
follows by induction on the derivation, where amounts are counted one by one: a window that does
not pay leaves a goal of the same kind (`Goal.Counted.after`), and what pays for the rest pays for
all together with the window (`Selects.pays`).  Padding adds a coin only while the goal is met, and
a coin that is taken out again leaves the totals as they were (`padding_pays`).

`run_sound` puts this together for a source: the positions are different ones, within the budget,
and the coins that the source shows there pay for the target and average the threshold.
-/
import Mathlib
import CoinSelection.Proofs.Counted
import CoinSelection.Proofs.Policy

namespace CoinSelection

open Binary64 (Exact lastExact)
open scoped List

set_option autoImplicit false

namespace MinPriority

variable {τ : Type} {budget : Nat} {threshold : Int} {g : Goal}
variable {coins chosen : List (Coin × τ)}

/-! ## Low and high coins -/

theorem counted_low (counted : CountedCoins coins) (threshold : Int) :
    CountedCoins (low threshold coins) :=
  (counted.subperm (List.take_sublist _ _).subperm).1

theorem counted_window (counted : CountedCoins coins) (threshold : Int) (size : Nat) :
    CountedCoins ((high threshold coins).take size) :=
  (counted.subperm ((List.take_sublist _ _).trans (List.drop_sublist _ _)).subperm).1

/-- The low coins can be added to what is found among the high ones. -/
theorem addable_low (counted : CountedCoins coins) {found : List (Coin × τ)}
    (fromHigh : found <+~ high threshold coins) :
    CountedCoins found ∧ Addable (worth found) (low threshold coins) := by
  obtain ⟨both, total⟩ := counted.subperm
    (subperm_of_high_low fromHigh (List.Subperm.refl (low threshold coins)))
  have foundCounted := (both.subperm (List.sublist_append_left _ _).subperm).1
  rw [worth_append] at total
  exact ⟨foundCounted, foundCounted.nonneg, (counted_low counted threshold).whole,
    total.trans counted.total⟩

/-! ## What is found pays -/

theorem padding_pays (goal : g.Counted) {count : Nat} {totals : Totals} {n : Int}
    (exact : Exact totals.amount n) (addable : Addable n coins) (start : g.due.Paid n) :
    g.due.Paid (n + worth (padding budget threshold g count totals coins)) := by
  fun_induction padding budget threshold g count totals coins generalizing n with
  | case1 => simpa using start
  | case2 => simpa using start
  | case3 count totals c rest room ageless ih => exact ih exact addable.skip start
  | case4 => simpa using start
  | case5 =>
      rename_i met ih
      have sum := addable.add exact
      have padded := ih sum addable.take ((goal.met_iff sum).1 met)
      rwa [worth_cons, ← add_assoc]
  | case6 =>
      rename_i ih
      exact ih (addable.back exact) addable.skip start

/-- What is found pays. -/
theorem Selects.pays (selects : Selects budget threshold g coins chosen) (goal : g.Counted)
    (counted : CountedCoins coins) : g.due.Paid (worth chosen) := by
  induction selects with
  | @scanned budget threshold g coins size found pays =>
      have paid := goal.paid_of_fewest (counted_window counted threshold size) pays
      obtain ⟨foundCounted, addable⟩ := addable_low counted (subperm_high_of_fewest pays)
      rw [worth_append]
      exact padding_pays goal foundCounted.exact_total addable paid
  | @toppedUp budget threshold g coins size window extra n isWindow nonempty short pos within
      search average ih =>
      have windowCounted : CountedCoins window := isWindow ▸ counted_window counted threshold size
      have unpaid := goal.not_paid_of_fewest windowCounted nonempty (by omega) short
      obtain ⟨rest, due⟩ := goal.after windowCounted.exact_total windowCounted.nonneg unpaid
      -- what pays for the rest pays for all, together with the window
      have paid := ih rest (counted_low counted threshold)
      rwa [due, Due.paid_after, ← worth_append] at paid

/-! ## Runs -/

/-- What a run answers, on a source whose coins can be read and are counted one by one. -/
theorem run_sound {s sorted : Source} {coins : List Coin} (shown : s.Shows coins) (args : Args)
    (threshold : Int) {target : Float} (goal : Goal.Counted ⟨target, args.minChangeAmount⟩)
    (counted : CountedCoins coins.zipIdx) {places : List Nat}
    (found : (Policy.minPriority threshold).run args target s = (.ok places, sorted)) :
    places.Nodup ∧ (∀ k ∈ places, k < s.size) ∧ 1 ≤ places.length ∧
      places.length ≤ args.budget ∧
      ∃ picked, places.mapM (fun k => sorted.coin (.nat k)) = .ok picked ∧
        ((picked.map Coin.units).sum = Whole.units target ∨
          Whole.units target + Whole.units args.minChangeAmount ≤
            (picked.map Coin.units).sum) ∧
        threshold * places.length ≤ (picked.map (·.valueAge)).sum := by
  rw [Policy.run, shown.apply_eq] at found
  obtain ⟨answer, rfl⟩ := Prod.mk.inj found
  obtain ⟨chosen, chooses, rfl⟩ := Policy.answer_eq_ok answer
  set ordered := ((Policy.minPriority threshold).ordered coins.zipIdx).map (·.1)
  have ordering : ordered ~ coins := by
    simpa [List.zipIdx_map_fst] using
      ((Policy.minPriority threshold).ordered_perm coins.zipIdx).map (·.1)
  have selects : Selects _ _ _ ordered.zipIdx chosen :=
    select_selects chooses
  have orderedCounted : CountedCoins ordered.zipIdx := counted.retag (by
    rwa [List.zipIdx_map_fst, List.zipIdx_map_fst])
  have picked := selects.picked
  obtain ⟨nodup, inside, nonempty, few⟩ := picked.places
  rw [ordering.length_eq, ← shown.size_eq] at inside
  refine ⟨nodup, inside, nonempty, few, chosen.map (·.1), ?_, ?_, ?_⟩
  · apply Source.mapM_coin
    intro c listed
    exact (shown.sorted _).coin_zipIdx c (picked.among.subset listed)
  · rw [List.map_map]
    exact selects.pays goal orderedCounted
  · rw [List.map_map, List.length_map]
    exact selects.averages (Policy.ascending_ordered threshold coins)

/-- An aged coin that falls short, topped up with a young one. -/
theorem run_sound_topUp :
    ∃ (args : Args) (s sorted : Source) (picked : List Coin),
      (Policy.minPriority 3).run args 8 s = (.ok [1, 0], sorted) ∧
      [1, 0].Nodup ∧ (∀ k ∈ [1, 0], k < s.size) ∧
      [1, 0].mapM (fun k => sorted.coin (.nat k)) = .ok picked ∧
      ((picked.map Coin.units).sum = Whole.units 8 ∨
        Whole.units 8 + Whole.units args.minChangeAmount ≤ (picked.map Coin.units).sum) ∧
      3 * (2 : Int) ≤ (picked.map (·.valueAge)).sum := by
  let args : Args := ⟨2, 0, by decide +kernel, by decide +kernel⟩
  let coins : List Coin := [⟨"aged", 5, 10⟩, ⟨"young", 3, 2⟩]
  have answer : ((Policy.minPriority 3).run args 8 (.collection coins.toArray)).1.toOption =
      some [1, 0] := by
    decide +kernel
  obtain ⟨found, sorted, run⟩ :
      ∃ found sorted, (Policy.minPriority 3).run args 8 (.collection coins.toArray) =
        (found, sorted) := ⟨_, _, rfl⟩
  rw [run] at answer
  cases found with
  | error fault => cases answer
  | ok places =>
      cases answer
      have counted : CountedCoins coins.zipIdx := ⟨by decide +kernel, by decide +kernel⟩
      have goal : Goal.Counted ⟨8, args.minChangeAmount⟩ :=
        ⟨⟨by decide +kernel, by decide +kernel⟩, ⟨by decide +kernel, by decide +kernel⟩,
          by decide +kernel⟩
      obtain ⟨nodup, inside, -, -, picked, read, pays, average⟩ :=
        run_sound (Source.shows_collection coins.toArray) args 3 goal counted run
      exact ⟨args, _, sorted, picked, run, nodup, inside, read, pays, average⟩

end MinPriority

end CoinSelection
