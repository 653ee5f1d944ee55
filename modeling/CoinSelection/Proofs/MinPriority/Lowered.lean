/-
# CoinSelection.Proofs.MinPriority.Lowered -- the average that low coins need

What `n` low coins have to bring to a window for all to average the threshold can be of any sign.
The average that is asked of them is its quotient by `n`, rounded toward zero.

* Coins of no negative value-age that bring enough meet that average (`loweredThreshold_mul_le`):
  a positive quotient is rounded down, and a negative one asks for nothing.
* `n` coins that meet it bring enough, unless a positive quotient was rounded
  (`averages_of_lowered`): a negative one is rounded up.

What a search among the low coins finds meets the average (`run_found`), so its coins are refused
after all only where they are fewer than `n` or a positive quotient was rounded
(`lowered_relaxes`).
-/
import Mathlib
import CoinSelection.Proofs.MinPriority.Checked

namespace CoinSelection.MinPriority

set_option autoImplicit false

/-! ## Rounding toward zero -/

section Rounding

variable {threshold : Int} {size n : Nat} {valueAge more : Int}

theorem tdiv_mul_le_of_le {a b : Int} (le : a ≤ b) (nonneg : 0 ≤ b) (n : Nat) :
    a.tdiv n * n ≤ b := by
  have parts := Int.tdiv_mul_add_tmod a n
  rcases le_total 0 a with pos | neg
  · have rest := Int.tmod_nonneg (n : Int) pos
    omega
  -- a negative quotient asks for nothing
  · have quotient : 0 ≤ (-a).tdiv n := Int.tdiv_nonneg (neg_nonneg.2 neg) (Int.natCast_nonneg n)
    rw [Int.neg_tdiv, neg_nonneg] at quotient
    exact (mul_nonpos_of_nonpos_of_nonneg quotient (Int.natCast_nonneg n)).trans nonneg

theorem le_tdiv_mul {a : Int} {n : Nat} (exact : a ≤ 0 ∨ (n : Int) ∣ a) : a ≤ a.tdiv n * n := by
  rcases exact with neg | divides
  · have parts := Int.tdiv_mul_add_tmod a n
    have rest := Int.tmod_nonneg (n : Int) (neg_nonneg.2 neg)
    rw [Int.neg_tmod] at rest
    omega
  · exact (Int.tdiv_mul_cancel divides).ge

/-- Rounding never asks more of `n` coins than the average of all does. -/
theorem loweredThreshold_mul_le (enough : threshold * (size + n : Nat) ≤ valueAge + more)
    (nonneg : 0 ≤ more) : loweredThreshold threshold size n valueAge * n ≤ more :=
  tdiv_mul_le_of_le (by omega) nonneg n

/-- What is asked of `n` coins is enough for the average of all, unless it was rounded down. -/
theorem averages_of_lowered
    (exact : threshold * (size + n : Nat) - valueAge ≤ 0 ∨
      (n : Int) ∣ threshold * (size + n : Nat) - valueAge)
    (enough : loweredThreshold threshold size n valueAge * n ≤ more) :
    averages threshold (size + n) (valueAge + more) := by
  have rounded := (le_tdiv_mul exact).trans enough
  rw [averages, decide_eq_true_iff]
  omega

end Rounding

namespace Checked

open Policy (tagged)

variable {limits : Limits} {threshold : Int} {target : Float} {s : Source}

/-! ## Low coins and a window behind them -/

section Places

variable {coins : List Coin} {cutoff size : Nat}

theorem length_take_zipIdx (inside : cutoff ≤ coins.length) :
    (coins.zipIdx.take cutoff).length = cutoff := by
  rw [List.length_take, List.length_zipIdx, Nat.min_eq_left inside]

theorem stretch_low (shown : s.Shows coins) (inside : cutoff ≤ coins.length) :
    stretch s 0 cutoff = tagged s (coins.zipIdx.take cutoff) := by
  rw [← (split_at shown cutoff).view_low, length_take_zipIdx inside]

theorem ofIndexes_range (shown : s.Shows coins) (inside : cutoff + size ≤ coins.length) :
    ∃ window, Subset.ofIndexes s ((List.range' cutoff size).map .nat) = .ok window ∧
      window.indexes = positions ((coins.zipIdx.drop cutoff).take size) ∧
      window.totals = .of (((coins.zipIdx.drop cutoff).take size).map (·.1)) := by
  have split := split_at shown cutoff
  have enough : size ≤ (coins.zipIdx.drop cutoff).length := by
    rw [List.length_drop, List.length_zipIdx]
    omega
  have places := split.positions_high enough
  rw [length_take_zipIdx (by omega)] at places
  rw [places]
  exact Subset.ofIndexes_eq (split.thereHigh size)

end Places

/-! ## What is found among low coins -/

/-- A search on a window at some coins leads to coins of it, within the budget and of the average
that it is made for. -/
theorem run_found {low : List (Coin × Nat)} (there : ∀ c ∈ low, s.coin (.nat c.2) = .ok c.1)
    {found : List Index} {sorted : Source}
    (run : run limits threshold target (tagged s low) = (.ok found, sorted)) :
    ∃ chosen : List (Coin × Nat), found.mapM sorted.sourceIndex = .ok (positions chosen) ∧
      (∀ c ∈ chosen, s.coin (.nat c.2) = .ok c.1) ∧
      found.length = chosen.length ∧ found.length ≤ limits.budget ∧
      threshold * found.length ≤ (chosen.map (·.1.valueAge)).sum := by
  set p := Policy.minPriority threshold with isPolicy
  rw [run_eq (Policy.shows_tagged there), expected] at run
  cases choice : p.choose limits.budget (limits.goal target) (p.ordered low) with
  | none =>
      rw [Policy.apply_window_none there choice] at run
      cases run
  | some chosen =>
      obtain ⟨places, answer, lead⟩ := Policy.apply_window_some there choice
      rw [answer] at run
      cases run
      have selects : Selects limits.budget threshold (limits.goal target) (p.ordered low) chosen :=
        select_selects choice
      have leads : (places.map Index.nat).mapM (tagged s (p.ordered low)).sourceIndex =
          .ok (positions chosen) := List.mapM_map.trans lead
      have length : (places.map Index.nat).length = chosen.length := by
        simpa using congrArg List.length (mapM_eq_ok_iff.1 leads)
      refine ⟨chosen, leads, ?_, length, ?_, ?_⟩
      · intro c listed
        exact there c ((p.ordered_perm low).mem_iff.1 (selects.picked.among.subset listed))
      · exact length.trans_le selects.picked.few
      · rw [length]
        exact selects.averages (Order.ascending_arrange low)

/-! ## What is refused -/

/-- The combined average is that of the window and of the coins that were found. -/
theorem combine_ages {window chosen : List (Coin × Nat)} {subset : Subset} {found : List Index}
    {sorted : Source} (lead : found.mapM sorted.sourceIndex = .ok (positions chosen))
    (there : ∀ c ∈ chosen, s.coin (.nat c.2) = .ok c.1) (length : found.length = chosen.length)
    (thereWindow : ∀ c ∈ window, s.coin (.nat c.2) = .ok c.1)
    (indexes : subset.indexes = positions window)
    (totals : subset.totals = .of (window.map (·.1))) :
    combine threshold s subset sorted found =
      .ok (if averages threshold (subset.size + found.length)
          (subset.totals.valueAge + (chosen.map (·.1.valueAge)).sum) then
        some (subset.indexes ++ positions chosen)
      else none) := by
  have joined : positions (window ++ chosen) = positions window ++ positions chosen :=
    List.map_append
  rw [combine_eq lead there thereWindow indexes totals, Totals.foldl_add_valueAge, List.map_map,
    Subset.size_of_indexes indexes, length, indexes, joined]
  rfl

/-- Where a search has found coins, the loop answers with them and the window if they are accepted,
and goes on if they are not. -/
theorem topUpWith_found {search : Search} {cutoff n : Nat} {window : Subset} {lowered : Int}
    {inner : Limits}
    (divides : quotient (threshold * (window.size + n : Nat) - window.totals.valueAge) n =
      .ok lowered)
    (made : Limits.of? n limits.minChange = .ok inner) {found : List Index} {low : Source}
    (finds : search inner lowered (target - window.totals.amount) (stretch s 0 cutoff) =
      (.ok found, low))
    {accepted : Bool} {indexes : List Index}
    (combines : combine threshold s window low found =
      .ok (if accepted then some indexes else none))
    {most : Array Float} (reach : ¬ most[n]?.getD 0 < target - window.totals.amount)
    (rest : List Nat) :
    topUpWith search limits threshold target s cutoff window most (n :: rest) =
        .ok (some indexes) ∨
      topUpWith search limits threshold target s cutoff window most (n :: rest) =
          topUpWith search limits threshold target s cutoff window most rest ∧
        accepted = false := by
  rw [topUpWith]
  simp only [reach, if_false, divides, made, Step.of_ok, ok_bind, finds, combines]
  cases accepted with
  | true => exact Or.inl rfl
  | false => exact Or.inr ⟨rfl, rfl⟩

/-- The average that is asked of `n` low coins is no more than they need for the threshold, and what
a search finds is refused only where it is fewer coins or the average was rounded down. -/
theorem lowered_relaxes {coins : List Coin} (shown : s.Shows coins) (limits : Limits)
    (threshold : Int) (target : Float) {cutoff size n : Nat}
    (inside : cutoff + size ≤ coins.length) (pos : 1 ≤ n) :
    ∃ (window : Subset) (needed lowered : Int) (inner : Limits),
      Subset.ofIndexes s ((List.range' cutoff size).map .nat) = .ok window ∧
      window.size = size ∧ window.totals = .of ((coins.drop cutoff).take size) ∧
      window.totals.valueAge = (((coins.drop cutoff).take size).map (·.valueAge)).sum ∧
      needed = threshold * (window.size + n : Nat) - window.totals.valueAge ∧
      quotient needed n = .ok lowered ∧ lowered = needed.tdiv n ∧
      Limits.of? n limits.minChange = .ok inner ∧
      (∀ low : List Coin, low.length = n → (∀ c ∈ low, 0 ≤ c.valueAge) →
        threshold * (window.size + n : Nat) ≤
            window.totals.valueAge + (low.map (·.valueAge)).sum →
          lowered * n ≤ (low.map (·.valueAge)).sum) ∧
      ∀ found low,
        run inner lowered (target - window.totals.amount) (stretch s 0 cutoff) = (.ok found, low) →
        ∃ added picked, found.mapM low.sourceIndex = .ok added ∧ added.mapM s.coin = .ok picked ∧
          found.length ≤ n ∧ lowered * found.length ≤ (picked.map (·.valueAge)).sum ∧
          (found.length = n → needed ≤ 0 ∨ (n : Int) ∣ needed →
            combine threshold s window low found = .ok (some (window.indexes ++ added))) ∧
          ∀ (most : Array Float) (rest : List Nat),
            ¬ most[n]?.getD 0 < target - window.totals.amount →
            topUpWith run limits threshold target s cutoff window most (n :: rest) =
                .ok (some (window.indexes ++ added)) ∨
              topUpWith run limits threshold target s cutoff window most (n :: rest) =
                  topUpWith run limits threshold target s cutoff window most rest ∧
                (found.length < n ∨ 0 < needed ∧ ¬ (n : Int) ∣ needed) := by
  have split := split_at shown cutoff
  have view : stretch s 0 cutoff = tagged s (coins.zipIdx.take cutoff) :=
    stretch_low shown (by omega)
  obtain ⟨window, makes, indexes, totals⟩ := ofIndexes_range shown inside
  have ages : window.totals = .of ((coins.drop cutoff).take size) := by
    rw [totals, List.map_take, List.map_drop, List.zipIdx_map_fst]
  have made : Limits.of? n limits.minChange = .ok ⟨n, limits.minChange, limits.minChange_whole⟩ :=
    limits_of? (Int.natCast_nonneg n) limits
  set needed := threshold * (window.size + n : Nat) - window.totals.valueAge with isNeeded
  have divides : quotient needed n = .ok (needed.tdiv n) :=
    quotient_lowered pos window.size window.totals.valueAge
  refine ⟨window, needed, _, _, makes, ?_, ages, ?_, rfl, divides, rfl, made, ?_, ?_⟩
  · rw [Subset.size_of_indexes indexes, List.length_take, List.length_drop, List.length_zipIdx]
    omega
  · rw [ages, Totals.of_valueAge]
  · intro low _ nonneg enough
    apply loweredThreshold_mul_le enough
    apply List.sum_nonneg
    simpa using nonneg
  · intro found low ran
    obtain ⟨chosen, lead, there, length, few, average⟩ :=
      run_found split.thereLow (view ▸ ran)
    have combines : combine threshold s window low found = _ :=
      combine_ages lead there length (split.thereHigh size) indexes totals
    have accepts : found.length = n → needed ≤ 0 ∨ (n : Int) ∣ needed →
        averages threshold (window.size + found.length)
          (window.totals.valueAge + (chosen.map (·.1.valueAge)).sum) := by
      intro all exact
      rw [all] at average ⊢
      exact averages_of_lowered exact average
    refine ⟨positions chosen, chosen.map (·.1), lead, ?_, few, ?_, ?_, ?_⟩
    · rw [mapM_eq_ok_iff, List.map_map, List.map_map]
      exact List.map_congr_left there
    · rwa [List.map_map]
    · intro all exact
      rw [combines, if_pos (accepts all exact)]
    · intro most rest reach
      refine (topUpWith_found divides made ran combines reach rest).imp_right ?_
      rintro ⟨next, refused⟩
      refine ⟨next, ?_⟩
      by_contra neither
      rw [not_or, not_lt, not_and_not_right] at neither
      obtain ⟨all, divisible⟩ := neither
      have accepted := accepts (few.antisymm all) ((le_or_gt needed 0).imp_right divisible)
      exact Bool.eq_false_iff.1 refused accepted

/-- The aged coin brings more than all three need, and what is left is halved toward zero: two coins
of no age are asked for an average of `-2`, and they are not refused. -/
theorem lowered_relaxes_surplus :
    ∃ (coins : List Coin) (window : Subset) (inner : Limits) (found added : List Index)
      (low : Source),
      coins.map (·.valueAge) = [0, 0, 35] ∧
      Subset.ofIndexes (.collection coins.toArray) [.nat 2] = .ok window ∧
      quotient (10 * 3 - 35) 2 = .ok (-2) ∧ Limits.of? 2 0 = .ok inner ∧
      run inner (-2) (7 - window.totals.amount) (stretch (.collection coins.toArray) 0 2) =
        (.ok found, low) ∧
      found.length = 2 ∧ found.mapM low.sourceIndex = .ok added ∧
      combine 10 (.collection coins.toArray) window low found =
        .ok (some (window.indexes ++ added)) := by
  let coins : List Coin := [⟨"first", 3, 0⟩, ⟨"second", 3, 0⟩, ⟨"aged", 1, 35⟩]
  let limits : Limits := ⟨3, 0, by decide +kernel⟩
  obtain ⟨window, needed, lowered, inner, makes, size, totals, ages, isNeeded, divides, rounds,
    made, -, searches⟩ := lowered_relaxes (Source.shows_collection coins.toArray) limits 10 7
      (by decide : 2 + 1 ≤ coins.length) (by decide : 1 ≤ 2)
  have surplus : needed = -5 := by
    rw [isNeeded, size, ages]
    rfl
  have isLowered : lowered = -2 := by
    rw [rounds, surplus]
    rfl
  obtain rfl := Except.ok.inj (made.symm.trans (limits_of? (Int.natCast_nonneg 2) limits))
  have answer : (run ⟨2, 0, limits.minChange_whole⟩ (-2)
      (7 - (Totals.of ((coins.drop 2).take 1)).amount)
      (stretch (.collection coins.toArray) 0 2)).1.toOption = some [.nat 0, .nat 1] := by
    decide +kernel
  have ran := eq_ok_of_toOption answer
  rw [← totals] at ran
  rw [surplus, isLowered] at divides searches
  obtain ⟨added, -, lead, -, -, -, accepted, -⟩ := searches _ _ ran
  exact ⟨coins, window, _, _, added, _, rfl, makes, divides, made, ran, rfl, lead,
    accepted rfl (by decide)⟩

end Checked

end CoinSelection.MinPriority
