/-
# CoinSelection.Proofs.FewestInputs -- the largest coins first are the fewest

The total of the largest coins may pass the target, leave too little change, and be enough later
on, so the scan may go on after it has paid.  But if some choice is worth the target and the least
change together, so are as many of the largest coins, and the scan has stopped by then
(`Goal.Counted.exists_fewest`).

Where no change is too little, coins pay exactly when they are worth the target.  Then the number
of coins that the scan takes is the least that can be worth it (`Policy.run_fewest_inputs`), and
since every policy chooses coins that are worth the target (`Policy.length_mem_sufficient`), none
of them succeeds where this one fails, or with fewer coins.
-/
import Mathlib
import CoinSelection.Proofs.Budget
import CoinSelection.Proofs.MinPriority.Complete
import CoinSelection.Proofs.OrderLeft

namespace CoinSelection

open scoped List

set_option autoImplicit false

variable {τ : Type} {budget : Nat} {g : Goal} {s : Source} {coins : List Coin}

/-- The sizes of the choices, of at least one coin and within the budget, that are worth an
amount. -/
def sufficient (budget : Nat) (amount : Int) (coins : List Coin) : Set Nat :=
  {n | 1 ≤ n ∧ n ≤ budget ∧
    ∃ chosen, chosen <+~ coins ∧ chosen.length = n ∧ amount ≤ (chosen.map Coin.units).sum}

theorem sufficient_perm {amount : Int} {coins' : List Coin} (perm : coins' ~ coins) :
    sufficient budget amount coins' = sufficient budget amount coins := by
  simp only [sufficient, perm.subperm_left]

/-! ## The largest coins -/

/-- If some coins within the budget are worth the target and the least change, a scan of the largest
coins takes no more of them. -/
theorem Goal.Counted.exists_fewest {tagged chosen : List (Coin × τ)} (goal : g.Counted)
    (counted : CountedCoins tagged) (picked : Picked budget tagged chosen)
    (enough : g.due.target + g.due.change ≤ worth chosen) :
    ∃ found, g.fewest budget tagged = some found ∧ found.length ≤ chosen.length := by
  -- a budget of just as many coins does
  have tight : Picked chosen.length tagged chosen :=
    ⟨picked.among, picked.nonempty, le_refl chosen.length⟩
  obtain ⟨found, fewest⟩ := Option.isSome_iff_exists.1 (goal.isSome_fewest counted tight enough)
  exact ⟨found, fewest_of_le picked.few fewest, (fewest_eq_some fewest).1.few⟩

namespace Policy

variable {p : Policy}

/-- Coins in line stay there, so the scan is one of the largest coins. -/
theorem choose_minNumber (counted : CountedCoins coins.zipIdx) :
    minNumber.choose budget g (minNumber.inLine coins).zipIdx =
      g.fewest budget (minNumber.inLine coins).zipIdx := by
  have stays : Order.largestFirst.arrange (minNumber.inLine coins).zipIdx =
      (minNumber.inLine coins).zipIdx :=
    ordered_settled minNumber counted.comparable
  rw [Goal.fewest, stays]
  rfl

/-- As many coins as can be worth the target and the least change are enough for a selection. -/
theorem exists_places (shown : s.Shows coins) (counted : CountedCoins coins.zipIdx) {args : Args}
    {target : Float} (goal : Goal.Counted ⟨target, args.minChangeAmount⟩) {n : Nat}
    (can : n ∈ sufficient args.budget (Whole.units target + Whole.units args.minChangeAmount)
      coins) :
    ∃ places, (minNumber.run args target s).1 = .ok places ∧ places.length ≤ n := by
  obtain ⟨pos, within, chosen, among, rfl, enough⟩ := can
  have ordering := minNumber.inLine_perm coins
  obtain ⟨tagged, places, perm⟩ := exists_tagged (among.trans ordering.symm.subperm)
  have length := perm.length_eq
  rw [List.length_map] at length
  have picked : Picked args.budget (minNumber.inLine coins).zipIdx tagged :=
    ⟨places.subperm, List.length_pos_iff.1 (by omega), by omega⟩
  rw [← (perm.map Coin.units).sum_eq, List.map_map] at enough
  obtain ⟨found, fewest, few⟩ := goal.exists_fewest (counted.reorder ordering) picked enough
  refine ⟨found.map (·.2), ?_, by rw [List.length_map]; omega⟩
  rw [run_shown shown, ← inLine, answer, choose_minNumber counted, fewest]

/-! ## What every policy pays -/

/-- Whatever the policy, the coins that are chosen pay. -/
theorem choose_paid {tagged chosen : List (Coin × τ)} (goal : g.Counted)
    (counted : CountedCoins tagged) (chooses : p.choose budget g tagged = some chosen) :
    g.due.Paid (worth chosen) := by
  have among := (choose_picked chooses).among
  by_cases searched : ∃ threshold, p = minPriority threshold
  · obtain ⟨threshold, rfl⟩ := searched
    exact (MinPriority.select_selects chooses).pays goal counted
  · have met := choose_met (not_exists.1 searched) chooses
    exact (goal.met_iff (counted.subperm among).1.exact_total).1 met

/-- Whatever the policy, as many coins as it selects can be worth the target. -/
theorem length_mem_sufficient (shown : s.Shows coins) (counted : CountedCoins coins.zipIdx)
    {args : Args} {target : Float} (goal : Goal.Counted ⟨target, args.minChangeAmount⟩)
    {places : List Nat} (found : (p.run args target s).1 = .ok places) :
    places.length ∈ sufficient args.budget (Whole.units target) coins := by
  rw [run_shown shown] at found
  obtain ⟨chosen, chooses, rfl⟩ := answer_eq_ok found
  have lineCounted : CountedCoins (p.inLine coins).zipIdx :=
    counted.reorder (p.inLine_perm coins)
  have picked := choose_picked chooses
  have paid := choose_paid goal lineCounted chooses
  have change : 0 ≤ Whole.units args.minChangeAmount :=
    Whole.units_nonneg args.minChangeAmount_whole
  have among : chosen.map (·.1) <+~ coins :=
    (subperm_untagged picked.among).trans (p.inLine_perm coins).subperm
  rw [List.length_map]
  refine ⟨List.length_pos_iff.2 picked.nonempty, picked.few, chosen.map (·.1), among,
    List.length_map _, ?_⟩
  rw [List.map_map]
  simp only [Due.Paid, Goal.due] at paid
  exact paid.elim ge_of_eq fun more => by
    show Whole.units target ≤ worth chosen
    omega

/-- The largest coins first: if some coins within the budget are worth the target and the least
change, there is a selection, of no more coins.  Where no change is too little, it has the least
number of coins that can be worth the target, there is one whenever some coins are, and no policy
selects fewer of the same coins. -/
theorem run_fewest_inputs (shown : s.Shows coins) (counted : CountedCoins coins.zipIdx)
    (args : Args) {target : Float} (goal : Goal.Counted ⟨target, args.minChangeAmount⟩) :
    (∀ n ∈ sufficient args.budget (Whole.units target + Whole.units args.minChangeAmount) coins,
      ∃ places, (minNumber.run args target s).1 = .ok places ∧ places.length ≤ n) ∧
    (Whole.units args.minChangeAmount = 0 →
      ((∃ places, (minNumber.run args target s).1 = .ok places) ↔
        (sufficient args.budget (Whole.units target) coins).Nonempty) ∧
      (∀ places, (minNumber.run args target s).1 = .ok places →
        IsLeast (sufficient args.budget (Whole.units target) coins) places.length) ∧
      ∀ (p : Policy) (s' : Source) (coins' : List Coin), s'.Shows coins' → coins' ~ coins →
        ∀ places', (p.run args target s').1 = .ok places' →
          ∃ places, (minNumber.run args target s).1 = .ok places ∧
            places.length ≤ places'.length) := by
  refine ⟨fun n can => exists_places shown counted goal can, fun noChange => ?_⟩
  have finds : ∀ n ∈ sufficient args.budget (Whole.units target) coins,
      ∃ places, (minNumber.run args target s).1 = .ok places ∧ places.length ≤ n := by
    intro n enough
    apply exists_places shown counted goal
    rwa [noChange, add_zero]
  refine ⟨⟨?_, ?_⟩, ?_, ?_⟩
  · rintro ⟨places, found⟩
    exact ⟨_, length_mem_sufficient shown counted goal found⟩
  · rintro ⟨n, enough⟩
    obtain ⟨places, found, -⟩ := finds n enough
    exact ⟨places, found⟩
  · intro places found
    refine ⟨length_mem_sufficient shown counted goal found, fun n enough => ?_⟩
    obtain ⟨places', found', few⟩ := finds n enough
    rw [found] at found'
    cases found'
    exact few
  · intro p s' coins' shown' perm places' found'
    have enough := length_mem_sufficient shown' (counted.reorder perm) goal found'
    rw [sufficient_perm perm] at enough
    exact finds _ enough

/-- Two coins are worth more than the target but leave too little change, so it takes three.  Where
any change will do it takes two, and one more for a scan of the coins as they are given. -/
theorem run_fewest_inputs_change :
    ∃ (args args' : Args) (coins : List Coin) (places places' : List Nat),
      args.minChangeAmount = 2 ∧
      3 ∈ sufficient args.budget (Whole.units 10 + Whole.units args.minChangeAmount) coins ∧
      (minNumber.run args 10 (.collection coins.toArray)).1 = .ok places ∧ places.length ≤ 3 ∧
      places = [0, 1, 2] ∧ Whole.units args'.minChangeAmount = 0 ∧
      (minIndex.run args' 10 (.collection coins.toArray)).1 = .ok [0, 1, 2] ∧
      (minNumber.run args' 10 (.collection coins.toArray)).1 = .ok places' ∧
      places'.length ≤ [0, 1, 2].length ∧ places' = [0, 1] ∧
      IsLeast (sufficient args'.budget (Whole.units 10) coins) places'.length := by
  let args : Args := ⟨3, 2, by decide +kernel, by decide +kernel⟩
  let args' : Args := ⟨3, 0, by decide +kernel, by decide +kernel⟩
  let coins : List Coin := [⟨"small", 4, 1⟩, ⟨"medium", 5, 1⟩, ⟨"large", 6, 1⟩]
  let given : Source := .collection coins.toArray
  have shown : given.Shows coins := Source.shows_collection _
  have counted : CountedCoins coins.zipIdx := ⟨by decide +kernel, by decide +kernel⟩
  have goal : Goal.Counted ⟨10, args.minChangeAmount⟩ :=
    ⟨⟨by decide +kernel, by decide +kernel⟩, ⟨by decide +kernel, by decide +kernel⟩,
      by decide +kernel⟩
  have goal' : Goal.Counted ⟨10, args'.minChangeAmount⟩ :=
    ⟨⟨by decide +kernel, by decide +kernel⟩, ⟨by decide +kernel, by decide +kernel⟩,
      by decide +kernel⟩
  have enough :
      3 ∈ sufficient args.budget (Whole.units 10 + Whole.units args.minChangeAmount) coins :=
    ⟨by decide, by decide +kernel, coins, List.Subperm.refl coins, rfl, by decide +kernel⟩
  have noChange : Whole.units args'.minChangeAmount = 0 := by decide +kernel
  have three : (minNumber.run args 10 given).1.toOption = some [0, 1, 2] := by decide +kernel
  have two : (minNumber.run args' 10 given).1.toOption = some [0, 1] := by decide +kernel
  have inFront : (minIndex.run args' 10 given).1.toOption = some [0, 1, 2] := by decide +kernel
  obtain ⟨finds, -⟩ := run_fewest_inputs shown counted args goal
  obtain ⟨-, whenNoChange⟩ := run_fewest_inputs shown counted args' goal'
  obtain ⟨-, least, fewer⟩ := whenNoChange noChange
  have scanned := congrArg Prod.fst (eq_ok_of_toOption inFront)
  obtain ⟨places, found, few⟩ := finds 3 enough
  obtain ⟨places', found', few'⟩ := fewer minIndex given coins shown (.refl coins) _ scanned
  rw [found] at three
  rw [found'] at two
  exact ⟨args, args', coins, places, places', rfl, enough, found, few, Option.some.inj three,
    noChange, scanned, found', few', Option.some.inj two, least _ found'⟩

end Policy

end CoinSelection
