/-
# CoinSelection.Proofs.Scan -- what a scan finds

`shortestPrefix` finds the least number of amounts whose sum from the left meets the goal
(`shortestPrefix_eq_some_iff`), or there is none within the budget
(`shortestPrefix_eq_none_iff`).  No amount need be a whole number for that.

`Picked` says that some coins were taken out of others within a budget; a scan picks, and what it
picks meets the goal in its totals (`scan_eq_some`, `fewest_eq_some`).  Scans look at the coins
alone, so tags can be renamed before or after (`scan_map`, `fewest_map`).
-/
import Mathlib
import CoinSelection.Proofs.Arrangement
import CoinSelection.Scan

namespace CoinSelection

open scoped List

set_option autoImplicit false

variable {τ υ : Type}

/-! ## Totals -/

namespace Totals

theorem foldl_add_amount (coins : List Coin) (t : Totals) :
    (coins.foldl add t).amount = (coins.map (·.amount)).foldl (· + ·) t.amount := by
  induction coins generalizing t with
  | nil => rfl
  | cons c coins ih => exact ih (t.add c)

theorem foldl_add_valueAge (coins : List Coin) (t : Totals) :
    (coins.foldl add t).valueAge = t.valueAge + (coins.map (·.valueAge)).sum := by
  induction coins generalizing t with
  | nil => simp
  | cons c coins ih =>
      rw [List.foldl_cons, ih, List.map_cons, List.sum_cons, ← add_assoc]
      rfl

/-- The amounts are summed from the left, beginning with zero. -/
theorem of_amount (coins : List Coin) :
    (of coins).amount = (coins.map (·.amount)).foldl (· + ·) 0 :=
  foldl_add_amount coins zero

theorem of_valueAge (coins : List Coin) :
    (of coins).valueAge = (coins.map (·.valueAge)).sum := by
  rw [of, foldl_add_valueAge]
  exact zero_add _

theorem of_tagged_valueAge (coins : List (Coin × τ)) :
    (of (coins.map (·.1))).valueAge = (coins.map (·.1.valueAge)).sum := by
  rw [of_valueAge, List.map_map]
  rfl

end Totals

/-! ## The shortest prefix -/

namespace Goal

variable {g : Goal} {budget : Nat} {total : Float} {amounts : List Float}

theorem shortestPrefix_eq_some_iff {k : Nat} :
    g.shortestPrefix budget total amounts = some k ↔
      1 ≤ k ∧ k ≤ budget ∧ k ≤ amounts.length ∧
        g.met ((amounts.take k).foldl (· + ·) total) ∧
        ∀ j, 1 ≤ j → j < k → g.met ((amounts.take j).foldl (· + ·) total) = false := by
  fun_induction Goal.shortestPrefix g budget total amounts generalizing k with
  | case1 =>
      constructor
      · nofun
      · rintro ⟨pos, within, -⟩
        omega
  | case2 =>
      constructor
      · nofun
      · rintro ⟨pos, -, inside, -⟩
        rw [List.length_nil] at inside
        omega
  | case3 budget total amount rest enough =>
      constructor
      · rintro ⟨⟩
        exact ⟨le_refl 1, by omega, by simp, by simpa using enough, by omega⟩
      · rintro ⟨pos, -, -, -, least⟩
        by_contra other
        have larger : 1 < k := by
          have : k ≠ 1 := fun one => other (one ▸ rfl)
          omega
        have := least 1 (le_refl 1) larger
        simp [enough] at this
  | case4 budget total amount rest short ih =>
      have first : g.met (([amount]).foldl (· + ·) total) = false := by simpa using short
      rw [Option.map_eq_some_iff]
      constructor
      · rintro ⟨j, found, rfl⟩
        obtain ⟨-, within, inside, pays, least⟩ := ih.1 found
        refine ⟨by omega, by omega, by simpa using inside, by simpa using pays, ?_⟩
        intro i pos before
        match i, pos with
        | 1, _ => simpa using first
        | i + 2, _ => simpa using least (i + 1) (by omega) (by omega)
      · rintro ⟨pos, within, inside, pays, least⟩
        match k, pos with
        | 1, _ => simp [short] at pays
        | k + 2, _ =>
            refine ⟨k + 1, ih.2 ⟨by omega, by omega, by simpa using inside, ?_, ?_⟩, rfl⟩
            · simpa using pays
            · intro j posJ before
              simpa using least (j + 1) (by omega) (by omega)

theorem shortestPrefix_eq_none_iff :
    g.shortestPrefix budget total amounts = none ↔
      ∀ k, 1 ≤ k → k ≤ budget → k ≤ amounts.length →
        g.met ((amounts.take k).foldl (· + ·) total) = false := by
  constructor
  · intro absent k pos within inside
    by_contra pays
    have pays : ∃ k, 1 ≤ k ∧ k ≤ budget ∧ k ≤ amounts.length ∧
        g.met ((amounts.take k).foldl (· + ·) total) :=
      ⟨k, pos, within, inside, by simpa using pays⟩
    obtain ⟨pos, within, inside, met⟩ := Nat.find_spec pays
    have found : g.shortestPrefix budget total amounts = some (Nat.find pays) := by
      refine shortestPrefix_eq_some_iff.2 ⟨pos, within, inside, met, ?_⟩
      intro j posJ before
      have := Nat.find_min pays before
      simp only [not_and, Bool.not_eq_true] at this
      exact this posJ (by omega) (by omega)
    rw [found] at absent
    cases absent
  · intro never
    cases found : g.shortestPrefix budget total amounts with
    | none => rfl
    | some k =>
        obtain ⟨pos, within, inside, met, -⟩ := shortestPrefix_eq_some_iff.1 found
        rw [never k pos within inside] at met
        cases met

end Goal

/-! ## Picking coins -/

/-- At least one and at most `budget` of the coins. -/
structure Picked (budget : Nat) (coins chosen : List (Coin × τ)) : Prop where
  among : chosen <+~ coins
  nonempty : chosen ≠ []
  few : chosen.length ≤ budget

namespace Picked

variable {budget : Nat} {coins : List Coin} {chosen : List (Coin × Nat)}

/-- Coins that were tagged with their places: the tags tell where they were. -/
theorem there (picked : Picked budget coins.zipIdx chosen) :
    ∀ c ∈ chosen, coins[c.2]? = some c.1 := by
  intro c inside
  exact List.mem_zipIdx_iff_getElem?.1 (picked.among.subset inside)

theorem inside (picked : Picked budget coins.zipIdx chosen) :
    ∀ c ∈ chosen, c.2 < coins.length := by
  intro c listed
  exact (List.getElem?_eq_some_iff.1 (picked.there c listed)).1

/-- The tags are different places, within the budget. -/
theorem places (picked : Picked budget coins.zipIdx chosen) :
    (chosen.map (·.2)).Nodup ∧ (∀ k ∈ chosen.map (·.2), k < coins.length) ∧
      1 ≤ (chosen.map (·.2)).length ∧ (chosen.map (·.2)).length ≤ budget := by
  obtain ⟨same, perm, sublist⟩ := picked.among
  have tags : (coins.zipIdx.map (·.2)).Nodup := by
    rw [List.zipIdx_map_snd]
    exact List.nodup_range'
  rw [List.length_map]
  refine ⟨(perm.map _).nodup_iff.1 (tags.sublist (sublist.map _)), ?_,
    List.length_pos_iff.2 picked.nonempty, picked.few⟩
  intro k listed
  obtain ⟨c, isChosen, rfl⟩ := List.mem_map.1 listed
  exact picked.inside c isChosen

end Picked

namespace Goal

variable {g : Goal} {budget : Nat} {coins chosen : List (Coin × τ)}

theorem scan_eq_some (found : g.scan budget coins = some chosen) :
    Picked budget coins chosen ∧ g.met (Totals.of (chosen.map (·.1))).amount := by
  obtain ⟨k, shortest, rfl⟩ := Option.map_eq_some_iff.1 found
  obtain ⟨pos, within, inside, met, -⟩ := shortestPrefix_eq_some_iff.1 shortest
  rw [List.length_map] at inside
  refine ⟨⟨(List.take_sublist _ _).subperm, ?_, ?_⟩, ?_⟩
  · rw [← List.length_pos_iff, List.length_take]
    omega
  · rw [List.length_take]
    omega
  · rw [Totals.of_amount, List.map_map, List.map_take]
    exact met

theorem fewest_eq_some (found : g.fewest budget coins = some chosen) :
    Picked budget coins chosen ∧ g.met (Totals.of (chosen.map (·.1))).amount := by
  obtain ⟨picked, met⟩ := scan_eq_some found
  have among := picked.among.trans (Order.arrange_perm _ coins).subperm
  exact ⟨⟨among, picked.nonempty, picked.few⟩, met⟩

theorem scan_map (g : Goal) (budget : Nat) (f : τ → υ) (coins : List (Coin × τ)) :
    g.scan budget (coins.map fun c => (c.1, f c.2)) =
      (g.scan budget coins).map fun chosen => chosen.map fun c => (c.1, f c.2) := by
  simp only [scan, List.map_map, Function.comp_def, Option.map_map, List.map_take]

theorem fewest_map (g : Goal) (budget : Nat) (f : τ → υ) (coins : List (Coin × τ)) :
    g.fewest budget (coins.map fun c => (c.1, f c.2)) =
      (g.fewest budget coins).map fun chosen => chosen.map fun c => (c.1, f c.2) := by
  rw [fewest, Order.map_arrange, scan_map]
  rfl

end Goal

end CoinSelection
