/-
# CoinSelection.Proofs.MinPriority.Selects -- how a selection comes about

A selection with a least average is found in one of two ways: a window of high coins meets the goal
by itself and is padded, or a whole window is topped up with a selection among the low coins.
`Selects` has a constructor for each, with what was checked on the way, and every selection that is
found has such a derivation (`select_selects`).

By induction on it, coins are taken out of the given ones within the budget (`Selects.picked`); and
where the coins ascend, their value-age averages the threshold (`Selects.averages`).  Amounts may
be any numbers for that.
-/
import Mathlib
import CoinSelection.MinPriority
import CoinSelection.Proofs.Scan

namespace CoinSelection.MinPriority

open scoped List

set_option autoImplicit false

variable {τ υ : Type} {budget : Nat} {threshold : Int} {g : Goal}
variable {coins chosen : List (Coin × τ)}

/-! ## Low and high coins -/

/-- The coins in front of the first one that reaches the threshold. -/
def low (threshold : Int) (coins : List (Coin × τ)) : List (Coin × τ) :=
  coins.take (coins.findIdx fun c => threshold ≤ c.1.valueAge)

def high (threshold : Int) (coins : List (Coin × τ)) : List (Coin × τ) :=
  coins.drop (coins.findIdx fun c => threshold ≤ c.1.valueAge)

theorem low_append_high (threshold : Int) (coins : List (Coin × τ)) :
    low threshold coins ++ high threshold coins = coins :=
  List.take_append_drop _ _

theorem length_low_lt (some : high threshold coins ≠ []) :
    (low threshold coins).length < coins.length := by
  have parts := congrArg List.length (low_append_high threshold coins)
  have pos := List.length_pos_iff.2 some
  rw [List.length_append] at parts
  omega

/-- In ascending order all coins from the first one on reach the threshold. -/
theorem le_of_mem_high (sorted : Order.Ascending coins) {c : Coin × τ}
    (inside : c ∈ high threshold coins) : threshold ≤ c.1.valueAge := by
  unfold high at inside
  set cutoff := coins.findIdx fun c => threshold ≤ c.1.valueAge
  have bound : cutoff < coins.length := by
    by_contra beyond
    rw [List.drop_eq_nil_of_le (Nat.le_of_not_lt beyond)] at inside
    cases inside
  have reaches : threshold ≤ coins[cutoff].1.valueAge := by
    simpa using List.findIdx_getElem (w := bound)
  rw [List.drop_eq_getElem_cons bound] at inside
  have ordered : (coins[cutoff] :: coins.drop (cutoff + 1)).Pairwise
      fun a b => a.1.valueAge ≤ b.1.valueAge := by
    rw [← List.drop_eq_getElem_cons bound]
    exact sorted.sublist (List.drop_sublist _ _)
  rcases List.mem_cons.1 inside with rfl | later
  · exact reaches
  · exact reaches.trans (List.rel_of_pairwise_cons ordered later)

/-- The coins in front of the first one that reaches the threshold do not. -/
theorem lt_of_mem_low {c : Coin × τ} (inside : c ∈ low threshold coins) :
    c.1.valueAge < threshold := by
  obtain ⟨k, bound, rfl⟩ := List.mem_iff_getElem.1 inside
  have before := lt_of_lt_of_le bound (List.length_take_le _ _)
  have misses := List.not_of_lt_findIdx before
  simpa only [low, List.getElem_take, decide_eq_false_iff_not, not_le] using misses

theorem subperm_of_high_low {first second : List (Coin × τ)}
    (fromHigh : first <+~ high threshold coins) (fromLow : second <+~ low threshold coins) :
    first ++ second <+~ coins := by
  have parts : high threshold coins ++ low threshold coins ~ coins :=
    List.perm_append_comm.trans (List.Perm.of_eq (low_append_high threshold coins))
  exact (fromHigh.append fromLow).trans parts.subperm

/-- What is found in a window is taken out of the high coins. -/
theorem subperm_high_of_fewest {size : Nat} {found : List (Coin × τ)}
    (pays : g.fewest budget ((high threshold coins).take size) = some found) :
    found <+~ high threshold coins :=
  (Goal.fewest_eq_some pays).1.among.trans (List.take_sublist _ _).subperm

/-- Coins taken out of the high ones average the threshold. -/
theorem averages_of_subperm_high (sorted : Order.Ascending coins) {found : List (Coin × τ)}
    (fromHigh : found <+~ high threshold coins) :
    threshold * found.length ≤ (Totals.of (found.map (·.1))).valueAge := by
  have each : ∀ v ∈ found.map (·.1.valueAge), threshold ≤ v := by
    intro v listed
    obtain ⟨c, chosen, rfl⟩ := List.mem_map.1 listed
    exact le_of_mem_high sorted (fromHigh.subset chosen)
  have sum := List.card_nsmul_le_sum _ _ each
  rw [nsmul_eq_mul, List.length_map, mul_comm] at sum
  rwa [Totals.of_tagged_valueAge]

theorem ascending_low (sorted : Order.Ascending coins) :
    Order.Ascending (low threshold coins) :=
  List.Pairwise.sublist (List.take_sublist _ _) sorted

/-! ## Padding -/

theorem padding_sublist (count : Nat) (totals : Totals) (coins : List (Coin × τ)) :
    padding budget threshold g count totals coins <+ coins := by
  fun_induction padding budget threshold g count totals coins with
  | case1 => exact List.Sublist.refl _
  | case2 => exact List.nil_sublist _
  | case3 count totals c rest room ageless ih => exact ih.cons c
  | case4 => exact List.nil_sublist _
  | case5 count totals c rest room aged with' enough met ih => exact ih.cons_cons c
  | case6 count totals c rest room aged with' enough short ih => exact ih.cons c

theorem length_padding_le {count : Nat} (room : count ≤ budget) (totals : Totals)
    (coins : List (Coin × τ)) :
    count + (padding budget threshold g count totals coins).length ≤ budget := by
  fun_induction padding budget threshold g count totals coins with
  | case1 => simpa using room
  | case2 => simpa using room
  | case3 count totals c rest room' ageless ih => exact ih room
  | case4 => simpa using room
  | case5 count totals c rest room' aged with' enough met ih =>
      have := ih (by omega)
      rw [List.length_cons]
      omega
  | case6 count totals c rest room' aged with' enough short ih => exact ih room

/-- The average stays at the threshold or above. -/
theorem padding_averages {count : Nat} {totals : Totals}
    (start : threshold * count ≤ totals.valueAge) (coins : List (Coin × τ)) :
    threshold * (count + (padding budget threshold g count totals coins).length : Nat) ≤
      totals.valueAge +
        ((padding budget threshold g count totals coins).map (·.1.valueAge)).sum := by
  fun_induction padding budget threshold g count totals coins with
  | case1 => simpa using start
  | case2 => simpa using start
  | case3 count totals c rest room ageless ih => exact ih start
  | case4 => simpa using start
  | case5 count totals c rest room aged with' enough met ih =>
      have enough : threshold * (count + 1 : Nat) ≤ with'.valueAge := by
        simpa [averages] using enough
      have padded := ih enough
      have total : with'.valueAge = totals.valueAge + c.1.valueAge := rfl
      rw [Nat.add_right_comm, total, Int.add_assoc] at padded
      rw [List.length_cons, List.map_cons, List.sum_cons]
      exact padded
  | case6 count totals c rest room aged with' enough short ih =>
      have restored : (with'.remove c.1).valueAge = totals.valueAge :=
        add_sub_cancel_right _ _
      rw [restored] at ih
      exact ih start

/-! ## One window -/

/-- What is found for the window of a given size. -/
def attempt (budget : Nat) (threshold : Int) (g : Goal) (coins : List (Coin × τ)) (size : Nat) :
    Option (List (Coin × τ)) :=
  let window := (high threshold coins).take size
  match g.fewest budget window with
  | some found =>
      some (found ++ padding budget threshold g found.length (.of (found.map (·.1)))
        (low threshold coins))
  | none =>
      topUp (fun n lowered missing => select n lowered missing (low threshold coins))
        (reachable (low threshold coins)) (low threshold coins).length budget threshold g window

/-- The first window that gives a selection decides. -/
theorem select_eq (budget : Nat) (threshold : Int) (g : Goal) (coins : List (Coin × τ)) :
    select budget threshold g coins =
      (List.range' 1 (high threshold coins).length).findSome?
        (attempt budget threshold g coins) := by
  rw [select]
  split
  · rfl
  · have none : high threshold coins = [] := List.drop_eq_nil_of_le (by omega)
    rw [none]
    rfl

/-- What is found for one number of low coins. -/
def topUpAt (search : Nat → Int → Goal → Option (List (Coin × τ))) (most : Array Float)
    (threshold : Int) (g : Goal) (window : List (Coin × τ)) (n : Nat) :
    Option (List (Coin × τ)) :=
  let totals := Totals.of (window.map (·.1))
  let missing := g.after totals.amount
  if mayReach most n missing.target then
    (search n (loweredThreshold threshold window.length n totals.valueAge) missing).bind
      fun chosen =>
        let combined := (chosen.map (·.1)).foldl Totals.add totals
        if averages threshold (window.length + chosen.length) combined.valueAge then
          some (window ++ chosen)
        else none
  else none

/-- The first number of low coins that works decides. -/
theorem topUp_eq (search : Nat → Int → Goal → Option (List (Coin × τ))) (most : Array Float)
    (low : Nat) (window : List (Coin × τ)) :
    topUp search most low budget threshold g window =
      (List.range' 1 (min low (budget - window.length))).findSome?
        (topUpAt search most threshold g window) :=
  rfl

theorem topUp_eq_some {search : Nat → Int → Goal → Option (List (Coin × τ))} {most : Array Float}
    {low : Nat} {window : List (Coin × τ)}
    (found : topUp search most low budget threshold g window = some chosen) :
    ∃ n extra, 1 ≤ n ∧ n ≤ low ∧ window.length + n ≤ budget ∧
      search n (loweredThreshold threshold window.length n (Totals.of (window.map (·.1))).valueAge)
        (g.after (Totals.of (window.map (·.1))).amount) = some extra ∧
      threshold * (window ++ extra).length ≤ ((window ++ extra).map (·.1.valueAge)).sum ∧
      chosen = window ++ extra := by
  rw [topUp_eq] at found
  obtain ⟨n, listed, found⟩ := List.exists_of_findSome?_eq_some found
  have bounds := List.mem_range'_1.1 listed
  unfold topUpAt at found
  dsimp only at found
  split at found
  · obtain ⟨extra, searched, found⟩ := Option.bind_eq_some_iff.1 found
    split at found
    · rename_i enough
      refine ⟨n, extra, by omega, by omega, by omega, searched, ?_, (Option.some.inj found).symm⟩
      simpa [averages, Totals.foldl_add_valueAge, Totals.of_tagged_valueAge,
        Function.comp_def] using enough
    · cases found
  · cases found

/-! ## Tags -/

section Tags

variable (f : τ → υ)

theorem low_map (threshold : Int) (coins : List (Coin × τ)) :
    low threshold (coins.map fun c => (c.1, f c.2)) =
      (low threshold coins).map fun c => (c.1, f c.2) := by
  rw [low, low, List.findIdx_map, List.map_take]
  rfl

theorem high_map (threshold : Int) (coins : List (Coin × τ)) :
    high threshold (coins.map fun c => (c.1, f c.2)) =
      (high threshold coins).map fun c => (c.1, f c.2) := by
  rw [high, high, List.findIdx_map, List.map_drop]
  rfl

theorem padding_map (count : Nat) (totals : Totals) (coins : List (Coin × τ)) :
    padding budget threshold g count totals (coins.map fun c => (c.1, f c.2)) =
      (padding budget threshold g count totals coins).map fun c => (c.1, f c.2) := by
  induction coins generalizing count totals with
  | nil => rfl
  | cons c rest ih =>
      simp only [List.map_cons, padding, ih]
      split
      · rfl
      · split
        · rfl
        · split
          · rfl
          · split <;> rfl

theorem topUp_map {search : Nat → Int → Goal → Option (List (Coin × τ))}
    {search' : Nat → Int → Goal → Option (List (Coin × υ))}
    (same : ∀ n lowered missing,
      search' n lowered missing = (search n lowered missing).map (·.map fun c => (c.1, f c.2)))
    (most : Array Float) (low : Nat) (window : List (Coin × τ)) :
    topUp search' most low budget threshold g (window.map fun c => (c.1, f c.2)) =
      (topUp search most low budget threshold g window).map (·.map fun c => (c.1, f c.2)) := by
  simp only [topUp_eq, List.map_findSome?, List.length_map]
  congr 1
  funext n
  simp only [topUpAt, List.map_map, Function.comp_def, List.length_map]
  split
  · rw [same]
    cases search n _ _ with
    | none => rfl
    | some chosen =>
        simp only [Option.map_some, Option.bind_some, List.map_map, Function.comp_def,
          List.length_map]
        split
        · rw [Option.map_some, List.map_append]
        · rfl
  · rfl

theorem reachable_map (coins : List (Coin × τ)) :
    reachable (coins.map fun c => (c.1, f c.2)) = reachable coins := by
  simp only [reachable, List.map_map, Function.comp_def]

/-- Tags are carried along unseen. -/
theorem select_map (budget : Nat) (threshold : Int) (g : Goal) (coins : List (Coin × τ)) :
    select budget threshold g (coins.map fun c => (c.1, f c.2)) =
      (select budget threshold g coins).map (·.map fun c => (c.1, f c.2)) := by
  induction measure : coins.length using Nat.strong_induction_on
    generalizing budget threshold g coins with
  | _ length ih =>
      subst measure
      rw [select_eq, select_eq, List.map_findSome?, high_map, List.length_map]
      by_cases none : high threshold coins = []
      · rw [none]
        rfl
      · congr 1
        funext size
        unfold attempt
        simp only [Function.comp_def, high_map, low_map, reachable_map, ← List.map_take,
          Goal.fewest_map, List.length_map]
        cases g.fewest budget ((high threshold coins).take size) with
        | none =>
            apply topUp_map
            intro n lowered missing
            exact ih _ (length_low_lt none) n lowered missing (low threshold coins) rfl
        | some found =>
            simp [padding_map, Function.comp_def]

end Tags

/-! ## Derivations -/

/-- How a selection comes about. -/
inductive Selects : Nat → Int → Goal → List (Coin × τ) → List (Coin × τ) → Prop
  /-- A window pays by itself, and low coins are added to the fewest of its coins that do. -/
  | scanned {budget : Nat} {threshold : Int} {g : Goal} {coins : List (Coin × τ)} (size : Nat)
      {found : List (Coin × τ)}
      (pays : g.fewest budget ((high threshold coins).take size) = some found) :
      Selects budget threshold g coins
        (found ++ padding budget threshold g found.length (.of (found.map (·.1)))
          (low threshold coins))
  /-- A window falls short, and low coins make up for what it lacks. -/
  | toppedUp {budget : Nat} {threshold : Int} {g : Goal} {coins : List (Coin × τ)} (size : Nat)
      {window extra : List (Coin × τ)} (n : Nat)
      (isWindow : window = (high threshold coins).take size)
      (nonempty : window ≠ []) (short : g.fewest budget window = none) (pos : 1 ≤ n)
      (within : window.length + n ≤ budget)
      (search : Selects n
        (loweredThreshold threshold window.length n (Totals.of (window.map (·.1))).valueAge)
        (g.after (Totals.of (window.map (·.1))).amount) (low threshold coins) extra)
      (average : threshold * (window ++ extra).length ≤
        ((window ++ extra).map (·.1.valueAge)).sum) :
      Selects budget threshold g coins (window ++ extra)

theorem select_selects (found : select budget threshold g coins = some chosen) :
    Selects budget threshold g coins chosen := by
  induction measure : coins.length using Nat.strong_induction_on
    generalizing budget threshold g coins chosen with
  | _ length ih =>
      subst measure
      rw [select_eq] at found
      obtain ⟨size, listed, found⟩ := List.exists_of_findSome?_eq_some found
      have bounds := List.mem_range'_1.1 listed
      have some : high threshold coins ≠ [] := by
        rw [← List.length_pos_iff]
        omega
      unfold attempt at found
      dsimp only at found
      split at found
      · rename_i fewest pays
        cases found
        exact .scanned size pays
      · rename_i short
        obtain ⟨n, extra, pos, -, within, searched, average, rfl⟩ := topUp_eq_some found
        refine .toppedUp size n rfl ?_ short pos within
          (ih _ (length_low_lt some) searched rfl) average
        rw [← List.length_pos_iff, List.length_take]
        omega

namespace Selects

/-- Coins are taken out of the given ones, at least one and within the budget. -/
theorem picked (selects : Selects budget threshold g coins chosen) :
    Picked budget coins chosen := by
  induction selects with
  | @scanned budget threshold g coins size found pays =>
      obtain ⟨window, -⟩ := Goal.fewest_eq_some pays
      constructor
      · exact subperm_of_high_low (subperm_high_of_fewest pays) (padding_sublist _ _ _).subperm
      · exact List.append_ne_nil_of_left_ne_nil window.nonempty _
      · rw [List.length_append]
        exact length_padding_le window.few _ _
  | @toppedUp budget threshold g coins size window extra n isWindow nonempty short pos within
      search average ih =>
      constructor
      · have fromHigh : window <+~ high threshold coins := by
          rw [isWindow]
          exact (List.take_sublist _ _).subperm
        exact subperm_of_high_low fromHigh ih.among
      · exact List.append_ne_nil_of_left_ne_nil nonempty _
      · rw [List.length_append]
        have := ih.few
        omega

/-- The value-age of the coins averages the threshold. -/
theorem averages (selects : Selects budget threshold g coins chosen)
    (sorted : Order.Ascending coins) :
    threshold * chosen.length ≤ (chosen.map (·.1.valueAge)).sum := by
  cases selects with
  | @scanned _ _ _ _ size found pays =>
      have start := averages_of_subperm_high sorted (subperm_high_of_fewest pays)
      rw [List.length_append, List.map_append, List.sum_append, ← Totals.of_tagged_valueAge found]
      exact padding_averages start (low threshold coins)
  | toppedUp size n isWindow nonempty short pos within search average => exact average

end Selects

end CoinSelection.MinPriority
