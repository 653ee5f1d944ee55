/-
# CoinSelection.Proofs.LeastPrefix -- how many coins a scan takes

A scan takes the coins in front, as they stand in the order of its policy, and the least number of
them with which the goal is met (`Goal.isLeast_stops_iff`).  A larger total need not meet it too: an
exact match may be followed by totals that leave too little change, so the least number is no
threshold of the total.  Where no number within the budget meets the goal there is no selection
(`Goal.stops_eq_empty_iff`).

`Policy.run_least_prefix` says so of a run, for any amounts that can be compared and summed as they
are.  Highest value-ages first, as many other coins are never older together (`ages_le_take`).
-/
import Mathlib
import CoinSelection.Proofs.GivenOrder
import CoinSelection.Proofs.OrderLeft

namespace CoinSelection

open scoped List

set_option autoImplicit false

variable {s : Source} {coins line : List Coin}

/-! ## Where a scan stops -/

namespace Goal

variable {g : Goal} {budget : Nat}

/-- The numbers of coins from the front, at least one and within the budget, whose amounts summed
from the left meet the goal. -/
def stops (g : Goal) (budget : Nat) (line : List Coin) : Set Nat :=
  {k | 1 ≤ k ∧ k ≤ min line.length budget ∧
    g.met (((line.take k).map (·.amount)).foldl (· + ·) 0)}

theorem isLeast_stops_iff {k : Nat} :
    IsLeast (g.stops budget line) k ↔
      g.shortestPrefix budget 0 (line.map (·.amount)) = some k := by
  rw [shortestPrefix_eq_some_iff, List.length_map, ← List.map_take]
  constructor
  · rintro ⟨⟨pos, within, met⟩, least⟩
    refine ⟨pos, by omega, by omega, met, ?_⟩
    intro j posJ before
    by_contra metJ
    rw [Bool.not_eq_false, ← List.map_take] at metJ
    have := least ⟨posJ, by omega, metJ⟩
    omega
  · rintro ⟨pos, within, inside, met, least⟩
    refine ⟨⟨pos, by omega, met⟩, ?_⟩
    rintro j ⟨posJ, -, metJ⟩
    by_contra before
    have unmet := least j posJ (by omega)
    rw [← List.map_take, metJ] at unmet
    cases unmet

theorem stops_eq_empty_iff :
    g.stops budget line = ∅ ↔ g.shortestPrefix budget 0 (line.map (·.amount)) = none := by
  rw [shortestPrefix_eq_none_iff, List.length_map, Set.eq_empty_iff_forall_notMem]
  constructor
  · intro never k pos within inside
    by_contra met
    rw [Bool.not_eq_false, ← List.map_take] at met
    exact never k ⟨pos, by omega, met⟩
  · rintro never k ⟨pos, within, met⟩
    have unmet := never k pos (by omega) (by omega)
    rw [← List.map_take, met] at unmet
    cases unmet

end Goal

/-! ## What a scan answers -/

/-- The coins at the first places are those in front. -/
theorem Source.Shows.mapM_range (shown : s.Shows line) {k : Nat} (inside : k ≤ line.length) :
    (List.range k).mapM (fun n => s.coin (.nat n)) = .ok (line.take k) := by
  have there : ∀ c ∈ line.zipIdx.take k, s.coin (.nat c.2) = .ok c.1 := by
    intro c front
    exact shown.coin_zipIdx c (List.mem_of_mem_take front)
  rw [← places_take inside, Source.mapM_coin there, List.map_take, List.zipIdx_map_fst]

namespace Policy

variable {p : Policy} {budget : Nat} {g : Goal}

theorem choose_scan {τ : Type} (scans : ∀ threshold, p ≠ minPriority threshold)
    (tagged : List (Coin × τ)) : p.choose budget g tagged = g.scan budget tagged := by
  cases p with
  | minPriority threshold => exact absurd rfl (scans threshold)
  | minIndex => rfl
  | minNumber => rfl
  | maxValueAge => rfl

theorem answer_scan (scans : ∀ threshold, p ≠ minPriority threshold) (line : List Coin) :
    p.answer budget g line =
      match g.shortestPrefix budget 0 (line.map (·.amount)) with
      | some k => .ok (List.range k)
      | none => .error (.noSelection g.target) := by
  have amounts : line.zipIdx.map (·.1.amount) = line.map (·.amount) := by
    conv_rhs => rw [← List.zipIdx_map_fst 0 line, List.map_map]
    rfl
  rw [answer, choose_scan scans, Goal.scan, amounts]
  cases found : g.shortestPrefix budget 0 (line.map (·.amount)) with
  | none => rfl
  | some k =>
      obtain ⟨-, -, inside, -⟩ := Goal.shortestPrefix_eq_some_iff.1 found
      rw [List.length_map] at inside
      simp only [Option.map_some, places_take inside]

/-- A scan answers with the first numbers, as many as the least number with which the goal is
met. -/
theorem answer_eq_ok_iff (scans : ∀ threshold, p ≠ minPriority threshold) {places : List Nat} :
    p.answer budget g line = .ok places ↔
      ∃ k, IsLeast (g.stops budget line) k ∧ places = List.range k := by
  rw [answer_scan scans]
  simp only [Goal.isLeast_stops_iff]
  cases g.shortestPrefix budget 0 (line.map (·.amount)) with
  | none => simp
  | some k => simp [eq_comm]

theorem answer_eq_error_iff (scans : ∀ threshold, p ≠ minPriority threshold) :
    p.answer budget g line = .error (.noSelection g.target) ↔ g.stops budget line = ∅ := by
  rw [answer_scan scans, Goal.stops_eq_empty_iff]
  cases g.shortestPrefix budget 0 (line.map (·.amount)) with
  | none => simp
  | some k => simp

/-! ## The order that is scanned -/

/-- Highest value-ages first: no choice of as many coins is older. -/
theorem ages_le_take {chosen : List Coin} (among : chosen <+~ coins) :
    (chosen.map (·.valueAge)).sum ≤
      (((maxValueAge.inLine coins).take chosen.length).map (·.valueAge)).sum := by
  obtain ⟨same, perm, sublist⟩ := among.trans (maxValueAge.inLine_perm coins).symm.subperm
  have most := sum_le_sum_take_length (sublist.map (·.valueAge)) (descending_inLine coins)
  rw [List.length_map, ← List.map_take] at most
  rwa [← (perm.map _).sum_eq, ← perm.length_eq]

/-- A policy that scans takes the first coins in its own order, and no more of them than the goal
asks for; it fails exactly when no number of them within the budget meets the goal.  With the
highest value-ages first, no other choice of as many coins is older. -/
theorem run_least_prefix (shown : s.Shows coins) (amounts : ∀ c ∈ coins, c.amount.isNaN = false)
    (scans : ∀ threshold, p ≠ minPriority threshold) (args : Args) (target : Float) :
    ∃ (placed : List (Coin × Nat)) (answer : Except Fault (List Nat)) (sorted : Source),
      p.run args target s = (answer, sorted) ∧
      p.Leaves coins placed ∧ (∀ placed', p.Leaves coins placed' → placed' = placed) ∧
      sorted.Shows (placed.map (·.1)) ∧
      (∀ places, answer = .ok places ↔ ∃ k,
        IsLeast (Goal.stops ⟨target, args.minChangeAmount⟩ args.budget (placed.map (·.1))) k ∧
          places = List.range k) ∧
      (answer = .error (.noSelection target) ↔
        Goal.stops ⟨target, args.minChangeAmount⟩ args.budget (placed.map (·.1)) = ∅) ∧
      (p = maxValueAge → ∀ places, answer = .ok places →
        ∃ picked, places.mapM (fun k => sorted.coin (.nat k)) = .ok picked ∧
          ∀ chosen, chosen <+~ coins → chosen.length = places.length →
            (chosen.map (·.valueAge)).sum ≤ (picked.map (·.valueAge)).sum) := by
  have leaves := p.leaves_ordered amounts
  have shownSorted := p.shows_inOrder shown
  refine ⟨_, _, _, run_shown shown p args target, leaves,
    fun placed' other => leaves_unique amounts other leaves, shownSorted,
    fun places => answer_eq_ok_iff scans, answer_eq_error_iff scans, ?_⟩
  rintro rfl places found
  obtain ⟨k, ⟨⟨-, within, -⟩, -⟩, rfl⟩ := (answer_eq_ok_iff scans).1 found
  refine ⟨_, shownSorted.mapM_range (by omega), ?_⟩
  intro chosen among length
  rw [List.length_range] at length
  exact length ▸ ages_le_take among

/-- Two halves are more than the target, but they leave too little change: a third coin is taken. -/
theorem run_least_prefix_dust :
    ∃ (args : Args) (coins : List Coin) (placed : List (Coin × Nat)) (sorted : Source),
      (∀ c ∈ coins, c.amount.isNaN = false) ∧ maxValueAge ≠ minPriority 0 ∧
      maxValueAge.run args 0.75 (.collection coins.toArray) = (.ok [0, 1, 2], sorted) ∧
      maxValueAge.Leaves coins placed ∧ sorted.Shows (placed.map (·.1)) ∧
      placed.map (·.1.label) = ["old", "older", "large", "young"] ∧
      IsLeast (Goal.stops ⟨0.75, args.minChangeAmount⟩ args.budget (placed.map (·.1))) 3 ∧
      ∃ picked, [0, 1, 2].mapM (fun k => sorted.coin (.nat k)) = .ok picked ∧
        ∀ chosen, chosen <+~ coins → chosen.length = 3 →
          (chosen.map (·.valueAge)).sum ≤ (picked.map (·.valueAge)).sum := by
  let args : Args := ⟨3, 1, by decide +kernel, by decide +kernel⟩
  let coins : List Coin :=
    [⟨"young", 9, -2⟩, ⟨"old", 0.5, 7⟩, ⟨"large", 4, 1⟩, ⟨"older", 0.5, 7⟩]
  have amounts : ∀ c ∈ coins, c.amount.isNaN = false := by decide +kernel
  have shown : (Source.collection coins.toArray).Shows coins := Source.shows_collection _
  obtain ⟨placed, answer, sorted, run, leaves, -, shows, answers, -, oldest⟩ :=
    run_least_prefix shown amounts (p := maxValueAge) nofun args 0.75
  have found : (maxValueAge.run args 0.75 (.collection coins.toArray)).1.toOption =
      some [0, 1, 2] := by
    decide +kernel
  have left : ((maxValueAge.run args 0.75 (.collection coins.toArray)).2.slots.filterMap
      Except.toOption).map (·.label) = ["old", "older", "large", "young"] := by
    decide +kernel
  rw [run, shows.filterMap_toOption, List.map_map] at left
  have answered : answer = .ok [0, 1, 2] := by
    have := eq_ok_of_toOption found
    rw [run] at this
    exact congrArg Prod.fst this
  obtain ⟨k, least, first⟩ := (answers _).1 answered
  have three : k = 3 := by simpa using (congrArg List.length first).symm
  obtain ⟨picked, read, most⟩ := oldest rfl _ answered
  exact ⟨args, coins, placed, sorted, amounts, nofun, answered ▸ run, leaves, shows, left,
    three ▸ least, picked, read, most⟩

end Policy

end CoinSelection
