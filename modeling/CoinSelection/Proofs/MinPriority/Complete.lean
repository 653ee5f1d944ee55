/-
# CoinSelection.Proofs.MinPriority.Complete -- high coins that pay are found

The windows grow until the last one holds all high coins.  If some choice among these is worth the
target and the least change, so are as many of the largest of them (`worth_le_take`), and the scan
of the last window stops there at the latest (`Goal.Counted.isSome_fewest`).  An earlier window, or
a top-up, can only give a selection sooner: none of them ends the search without one
(`isSome_select`).

In ascending order the high coins are those that reach the threshold (`filter_eq_high`), so
`run_complete` speaks of coins of the source and their value-ages alone.
-/
import Mathlib
import CoinSelection.Proofs.MinPriority.Reach
import CoinSelection.Proofs.MinPriority.Sound

namespace CoinSelection

open scoped List

set_option autoImplicit false

variable {τ : Type} {budget : Nat} {threshold : Int} {g : Goal}
variable {coins chosen : List (Coin × τ)}

/-- If some coins within the budget are worth the target and the least change, a scan of the largest
coins finds some. -/
theorem Goal.Counted.isSome_fewest (goal : g.Counted) (counted : CountedCoins coins)
    (picked : Picked budget coins chosen) (enough : g.due.target + g.due.change ≤ worth chosen) :
    (g.fewest budget coins).isSome := by
  by_contra absent
  have absent : g.fewest budget coins = none := by simpa using absent
  have never := shortestPrefix_eq_none_iff.1 (Option.map_eq_none_iff.1 absent)
  have inside := picked.among.length_le
  -- as many of the largest coins
  have front : (Order.largestFirst.arrange coins).take chosen.length <+~ coins :=
    (List.take_sublist _ _).subperm.trans (Order.largestFirst.arrange_perm coins).subperm
  have exact := (counted.subperm front).1.exact_total
  have most := worth_le_take counted picked.among (le_refl chosen.length)
  have paid : g.due.Paid (worth ((Order.largestFirst.arrange coins).take chosen.length)) := by
    right
    omega
  have met := (goal.met_iff exact).2 paid
  rw [Totals.of_amount, List.map_map, List.map_take] at met
  have unmet := never chosen.length (List.length_pos_iff.2 picked.nonempty) picked.few
    (by simpa using inside)
  exact Bool.eq_false_iff.1 unmet met

/-- Coins chosen out of others, each with a place that it has among them. -/
theorem exists_tagged {coins chosen : List Coin} (among : chosen <+~ coins) :
    ∃ tagged, tagged <+ coins.zipIdx ∧ tagged.map (·.1) ~ chosen := by
  obtain ⟨same, perm, sublist⟩ := among
  rw [← List.zipIdx_map_fst 0 coins] at sublist
  obtain ⟨tagged, places, rfl⟩ := List.sublist_map_iff.1 sublist
  exact ⟨tagged, places, perm⟩

/-- Coins chosen by place, without their places. -/
theorem subperm_untagged {coins : List Coin} {tagged : List (Coin × Nat)}
    (among : tagged <+~ coins.zipIdx) : tagged.map (·.1) <+~ coins := by
  obtain ⟨same, perm, sublist⟩ := among
  have untagged := sublist.map (·.1)
  rw [List.zipIdx_map_fst] at untagged
  exact ⟨same.map (·.1), perm.map _, untagged⟩

namespace MinPriority

/-- In ascending order the high coins are those that reach the threshold. -/
theorem filter_eq_high (sorted : Order.Ascending coins) :
    coins.filter (fun c => threshold ≤ c.1.valueAge) = high threshold coins := by
  have isLow : ∀ c ∈ low threshold coins, ¬ decide (threshold ≤ c.1.valueAge) = true := by
    intro c inside
    simpa using lt_of_mem_low inside
  have isHigh : ∀ c ∈ high threshold coins, decide (threshold ≤ c.1.valueAge) = true := by
    intro c inside
    simpa using le_of_mem_high sorted inside
  calc coins.filter (fun c => threshold ≤ c.1.valueAge)
    _ = (low threshold coins ++ high threshold coins).filter
          (fun c => threshold ≤ c.1.valueAge) := by rw [low_append_high]
    _ = high threshold coins := by
        rw [List.filter_append, List.filter_eq_nil_iff.2 isLow, List.filter_eq_self.2 isHigh,
          List.nil_append]

/-- If some high coins within the budget are worth the target and the least change, the search finds
a selection. -/
theorem isSome_select (goal : g.Counted) (counted : CountedCoins coins)
    (picked : Picked budget (high threshold coins) chosen)
    (enough : g.due.target + g.due.change ≤ worth chosen) :
    (select budget threshold g coins).isSome := by
  have nonempty : 1 ≤ (high threshold coins).length :=
    (List.length_pos_iff.2 picked.nonempty).trans_le picked.among.length_le
  rw [select_eq, List.findSome?_isSome_iff]
  -- the last window is all of the high coins
  refine ⟨(high threshold coins).length, List.mem_range'_1.2 (by omega), ?_⟩
  have highCounted := counted_window counted threshold (high threshold coins).length
  rw [List.take_length] at highCounted
  obtain ⟨found, pays⟩ :=
    Option.isSome_iff_exists.1 (goal.isSome_fewest highCounted picked enough)
  simp [attempt, pays]

/-- Coins that reach the threshold are among the high ones, where each has a place. -/
theorem exists_among_high {ordered chosen : List Coin} (sorted : Order.Ascending ordered.zipIdx)
    (among : chosen <+~ ordered) (reaching : ∀ c ∈ chosen, threshold ≤ c.valueAge) :
    ∃ tagged, tagged <+~ high threshold ordered.zipIdx ∧ tagged.map (·.1) ~ chosen := by
  obtain ⟨tagged, places, perm⟩ := exists_tagged among
  have reach : tagged.filter (fun c => threshold ≤ c.1.valueAge) = tagged := by
    apply List.filter_eq_self.2
    intro c inside
    simpa using reaching c.1 (perm.mem_iff.1 (List.mem_map_of_mem inside))
  refine ⟨tagged, ?_, perm⟩
  rw [← filter_eq_high sorted, ← reach]
  exact (places.filter _).subperm

/-- A run finds a selection if some of the coins, within the budget, all reach the threshold and are
worth the target and the least change, whatever other coins there are. -/
theorem run_complete {s : Source} {coins : List Coin} (shown : s.Shows coins) (args : Args)
    (threshold : Int) {target : Float} (goal : Goal.Counted ⟨target, args.minChangeAmount⟩)
    (counted : CountedCoins coins.zipIdx) {chosen : List Coin} (among : chosen <+~ coins)
    (nonempty : chosen ≠ []) (few : chosen.length ≤ args.budget)
    (reaching : ∀ c ∈ chosen, threshold ≤ c.valueAge)
    (enough : Whole.units target + Whole.units args.minChangeAmount ≤
      (chosen.map Coin.units).sum) :
    ∃ places sorted, (Policy.minPriority threshold).run args target s = (.ok places, sorted) := by
  let line := (Policy.minPriority threshold).inLine coins
  have ordering : line ~ coins := (Policy.minPriority threshold).inLine_perm coins
  have lineCounted : CountedCoins line.zipIdx := counted.reorder ordering
  obtain ⟨tagged, fromHigh, perm⟩ := exists_among_high
    (Policy.ascending_ordered threshold coins) (among.trans ordering.symm.subperm) reaching
  have length := perm.length_eq
  rw [List.length_map] at length
  have picked : Picked args.budget (high threshold line.zipIdx) tagged := by
    refine ⟨fromHigh, ?_, by omega⟩
    rintro rfl
    exact nonempty perm.symm.eq_nil
  rw [← (perm.map Coin.units).sum_eq, List.map_map] at enough
  obtain ⟨found, selected⟩ :=
    Option.isSome_iff_exists.1 (isSome_select goal lineCounted picked enough)
  refine ⟨found.map (·.2), (Policy.minPriority threshold).sorted s coins, ?_⟩
  rw [Policy.run, shown.apply_eq, ← Policy.inLine, Policy.answer, Policy.choose, selected]

/-- Only the second window pays: the first falls short, and its top-up would have to be older. -/
theorem run_complete_lastWindow :
    ∃ (args : Args) (coins chosen : List Coin),
      coins.map (·.label) = ["young", "first", "second"] ∧ chosen <+~ coins ∧
      chosen.length ≤ args.budget ∧ (∀ c ∈ chosen, 10 ≤ c.valueAge) ∧
      Whole.units 8 + Whole.units args.minChangeAmount ≤ (chosen.map Coin.units).sum ∧
      Goal.fewest ⟨8, args.minChangeAmount⟩ args.budget [(⟨"first", 3, 10⟩, ())] = none ∧
      ∃ places sorted,
        (Policy.minPriority 10).run args 8 (.collection coins.toArray) = (.ok places, sorted) := by
  let args : Args := ⟨2, 1, by decide +kernel, by decide +kernel⟩
  let chosen : List Coin := [⟨"second", 6, 12⟩, ⟨"first", 3, 10⟩]
  let coins : List Coin := [⟨"young", 50, 1⟩, ⟨"first", 3, 10⟩, ⟨"second", 6, 12⟩]
  have among : chosen <+~ coins :=
    (List.Perm.swap _ _ _).subperm.trans (List.sublist_cons_self _ _).subperm
  have few : chosen.length ≤ args.budget := by decide +kernel
  have reaching : ∀ c ∈ chosen, 10 ≤ c.valueAge := by decide
  have enough : Whole.units 8 + Whole.units args.minChangeAmount ≤
      (chosen.map Coin.units).sum := by
    decide +kernel
  have short : (Goal.fewest ⟨8, args.minChangeAmount⟩ args.budget
      [((⟨"first", 3, 10⟩ : Coin), ())]).isNone := by
    decide +kernel
  have counted : CountedCoins coins.zipIdx := ⟨by decide +kernel, by decide +kernel⟩
  have goal : Goal.Counted ⟨8, args.minChangeAmount⟩ :=
    ⟨⟨by decide +kernel, by decide +kernel⟩, ⟨by decide +kernel, by decide +kernel⟩,
      by decide +kernel⟩
  exact ⟨args, coins, chosen, rfl, among, few, reaching, enough, Option.isNone_iff_eq_none.1 short,
    run_complete (Source.shows_collection coins.toArray) args 10 goal counted among
      (by simp [chosen]) few reaching enough⟩

end MinPriority

end CoinSelection
