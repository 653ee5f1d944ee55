/-
# CoinSelection.Proofs.MinPriority.Checked -- nothing goes wrong in a search

On a source whose coins can be read, the search step by step (`Checked.run`) gives what the policy
gives, at every level (`run_eq`): so it ends in positions or for want of a selection, and with no
mishap.  Amounts may be any numbers, NaN among them.

Each part is stated by the part of `MinPriority.select` that it computes, on coins tagged with their
places: `pad_eq` for the padding, `topUp_eq` for topping up, `windows_eq` for the windows.  What a
level needs of the inner searches is that they give what they should on the coins in front of the
cutoff (`Finds`).  Those are fewer, and the induction is on the number of coins.
-/
import Mathlib
import CoinSelection.MinPriority.Checked
import CoinSelection.Proofs.MinPriority.Reach
import CoinSelection.Proofs.Policy
import CoinSelection.Proofs.Subset

namespace CoinSelection.MinPriority.Checked

open Policy (tagged)
open scoped List

set_option autoImplicit false

variable {limits : Limits} {threshold : Int} {target : Float} {s : Source}
variable {coins : List (Coin × Nat)}

/-! ## Steps that succeed -/

@[simp] theorem Step.of_ok {α : Type} (a : α) : Step.of (.ok a) = .ok a := rfl

theorem ok_bind {α β ε : Type} (a : α) (f : α → Except ε β) : (Except.ok a >>= f) = f a := rfl

/-! ## Looking for the cutoff -/

theorem firstReaching_eq (there : ∀ c ∈ coins, s.coin (.nat c.2) = .ok c.1) :
    firstReaching threshold s (coins.map (·.2)) =
      .ok ((coins.find? fun c => threshold ≤ c.1.valueAge).map (·.2)) := by
  induction coins with
  | nil => rfl
  | cons c rest ih =>
      obtain ⟨head, others⟩ := List.forall_mem_cons.1 there
      rw [List.map_cons, firstReaching, head, List.find?_cons]
      by_cases reaches : threshold ≤ c.1.valueAge
      · simp [reaches, bind, Except.bind, pure, Except.pure]
      · simp [reaches, bind, Except.bind, ih others]

/-! ## Padding -/

theorem pad_eq (there : ∀ c ∈ coins, s.coin (.nat c.2) = .ok c.1) (subset : Subset) :
    ∃ padded, pad limits threshold target s subset (coins.map (·.2)) = .ok padded ∧
      padded.indexes = subset.indexes ++ positions
        (padding limits.budget threshold (limits.goal target) subset.size subset.totals coins) := by
  induction coins generalizing subset with
  | nil => exact ⟨subset, rfl, (List.append_nil _).symm⟩
  | cons c rest ih =>
      obtain ⟨head, others⟩ := List.forall_mem_cons.1 there
      have rest' := ih others
      -- the coin is added before it is judged, and taken out again if it does not stay
      obtain ⟨more, less, adds, takes, moreIndexes, moreTotals, lessIndexes, lessTotals⟩ :=
        Subset.popBack_pushBack head subset
      have moreSize : more.size = subset.size + 1 := by
        rw [Subset.size_eq, Subset.size_eq, moreIndexes, List.length_append, List.length_singleton]
      have lessSize : less.size = subset.size := by
        rw [Subset.size_eq, Subset.size_eq, lessIndexes]
      rw [List.map_cons, pad, padding]
      by_cases full : limits.budget ≤ subset.size
      · exact ⟨subset, if_pos full, by simp [full]⟩
      · simp only [full, if_false, head, Step.of_ok, adds, takes, bind, Except.bind, pure,
          Except.pure]
        by_cases ageless : c.1.valueAge = 0
        · simpa only [ageless, if_true] using rest' subset
        · simp only [ageless, if_false, moreTotals, moreSize, averages]
          by_cases below :
              (subset.totals.add c.1).valueAge < threshold * (subset.size + 1 : Nat)
          · have tooLow : decide (threshold * (subset.size + 1 : Nat) ≤
                (subset.totals.add c.1).valueAge) = false :=
              decide_eq_false (not_le.2 below)
            refine ⟨less, if_pos below, ?_⟩
            simp only [tooLow, Bool.not_false, if_true, lessIndexes, List.map_nil, List.append_nil]
          · simp only [below, if_false, not_lt.1 below, decide_true, Bool.not_true,
              Bool.false_eq_true]
            by_cases met : (limits.goal target).met (subset.totals.add c.1).amount = true
            · simp only [met, if_true]
              obtain ⟨padded, pads, indexes⟩ := rest' more
              rw [moreSize, moreTotals, moreIndexes, List.append_assoc] at indexes
              exact ⟨padded, pads, indexes⟩
            · simp only [met]
              obtain ⟨padded, pads, indexes⟩ := rest' less
              rw [lessSize, lessTotals, lessIndexes] at indexes
              exact ⟨padded, pads, indexes⟩

/-! ## Low and high coins of a source -/

/-- The source shows low coins and then high ones, each tagged with its place. -/
structure Split (s : Source) (low high : List (Coin × Nat)) : Prop where
  there : ∀ c ∈ low ++ high, s.coin (.nat c.2) = .ok c.1
  places : (low ++ high).map (·.2) = List.range s.size

namespace Split

variable {low high : List (Coin × Nat)}

theorem thereLow (split : Split s low high) : ∀ c ∈ low, s.coin (.nat c.2) = .ok c.1 := by
  intro c inside
  exact split.there c (List.mem_append_left _ inside)

theorem thereHigh (split : Split s low high) (k : Nat) :
    ∀ c ∈ high.take k, s.coin (.nat c.2) = .ok c.1 := by
  intro c inside
  exact split.there c (List.mem_append_right _ (List.mem_of_mem_take inside))

theorem size_eq (split : Split s low high) : s.size = low.length + high.length := by
  simpa using (congrArg List.length split.places).symm

theorem parts (split : Split s low high) :
    low.map (·.2) = List.range low.length ∧
      high.map (·.2) = List.range' low.length high.length := by
  have whole : low.map (·.2) ++ high.map (·.2) =
      List.range low.length ++ List.range' low.length high.length := by
    have joined : List.range' 0 low.length ++ List.range' (0 + low.length) high.length =
        List.range' 0 (low.length + high.length) := List.range'_append_1
    rw [Nat.zero_add, ← List.range_eq_range', ← List.range_eq_range'] at joined
    rw [← List.map_append, split.places, split.size_eq, joined]
  exact List.append_inj whole (by simp)

theorem low_places (split : Split s low high) : low.map (·.2) = List.range low.length :=
  split.parts.1

theorem high_places (split : Split s low high) {k : Nat} (inside : k ≤ high.length) :
    (high.take k).map (·.2) = List.range' low.length k := by
  rw [List.map_take, split.parts.2, List.take_range'_of_length_ge inside]

theorem positions_high (split : Split s low high) {k : Nat} (inside : k ≤ high.length) :
    (List.range' low.length k).map Index.nat = positions (high.take k) := by
  rw [← split.high_places inside, List.map_map]
  rfl

theorem view_low (split : Split s low high) : stretch s 0 low.length = tagged s low := by
  rw [stretch, ← List.range_eq_range', ← split.low_places, List.map_map]
  rfl

theorem view_high (split : Split s low high) {k : Nat} (inside : k ≤ high.length) :
    stretch s low.length k = tagged s (high.take k) := by
  rw [stretch, split.positions_high inside]

end Split

/-! ## Topping up -/

/-- Inner searches give what they should on the window at the low coins: positions in it that lead
to the coins that are found, or the want of a selection. -/
def Finds (search : Search) (s : Source) (low : List (Coin × Nat)) : Prop :=
  ∀ (inner : Limits) (lowered : Int) (residual : Float),
    match MinPriority.select inner.budget lowered (inner.goal residual) low with
    | some chosen => ∃ places sorted,
        search inner lowered residual (tagged s low) = (.ok places, sorted) ∧
        places.mapM sorted.sourceIndex = .ok (positions chosen)
    | none => ∃ sorted,
        search inner lowered residual (tagged s low) =
          (.error (.fault (.noSelection residual)), sorted)

/-- Looking positions up and adding their coins, one after the other. -/
theorem foldlM_lookup {α β γ ε : Type} {look : α → Except ε β} {add : γ → β → Except ε γ}
    {xs : List α} {ys : List β} (found : xs.mapM look = .ok ys) (start : γ) :
    xs.foldlM (fun c x => do add c (← look x)) start = ys.foldlM add start := by
  rw [mapM_eq_ok_iff] at found
  induction xs generalizing ys start with
  | nil =>
      rw [List.map_eq_nil_iff.1 found.symm]
      rfl
  | cons x xs ih =>
      cases ys with
      | nil => cases found
      | cons y ys =>
          obtain ⟨head, tail⟩ := List.cons.inj found
          rw [List.foldlM_cons, List.foldlM_cons, head]
          apply bind_congr
          intro c
          exact ih tail c

theorem limits_of? {budget : Int} (nonneg : 0 ≤ budget) (limits : Limits) :
    Limits.of? budget limits.minChange =
      .ok ⟨budget.toNat, limits.minChange, limits.minChange_whole⟩ := by
  rw [Limits.of?, if_neg (not_lt.2 nonneg), dif_pos limits.minChange_whole]

section TopUp

variable {search : Search} {low high window : List (Coin × Nat)}

theorem combine_eq {places : List Index} {sorted : Source} {chosen : List (Coin × Nat)}
    (lead : places.mapM sorted.sourceIndex = .ok (positions chosen))
    (thereChosen : ∀ c ∈ chosen, s.coin (.nat c.2) = .ok c.1)
    (thereWindow : ∀ c ∈ window, s.coin (.nat c.2) = .ok c.1) {subset : Subset}
    (indexes : subset.indexes = positions window)
    (totals : subset.totals = .of (window.map (·.1))) :
    combine threshold s subset sorted places =
      .ok (if averages threshold (window.length + chosen.length)
          ((chosen.map (·.1)).foldl Totals.add subset.totals).valueAge then
        some (positions (window ++ chosen))
      else none) := by
  obtain ⟨all, copies, allIndexes, allTotals⟩ := Subset.ofIndexes_eq thereWindow
  obtain ⟨combined, adds, combinedIndexes, combinedTotals⟩ :=
    Subset.foldlM_pushBack thereChosen all
  rw [allIndexes, ← List.map_append] at combinedIndexes
  have average : combined.totals.valueAge < threshold * combined.size ↔
      ¬ averages threshold (window.length + chosen.length)
        ((chosen.map (·.1)).foldl Totals.add subset.totals).valueAge = true := by
    rw [Subset.size_of_indexes combinedIndexes, combinedTotals, allTotals, ← totals, averages,
      decide_eq_true_iff, not_le, List.length_append]
  rw [combine, indexes, copies, Step.of_ok, ok_bind, foldlM_lookup lead, adds, Step.of_ok, ok_bind]
  by_cases enough : averages threshold (window.length + chosen.length)
      ((chosen.map (·.1)).foldl Totals.add subset.totals).valueAge = true
  · rw [if_neg (mt average.1 (not_not.2 enough)), if_pos enough, combinedIndexes]
    rfl
  · rw [if_pos (average.2 enough), if_neg enough]
    rfl

/-- A number of coins is no zero to divide by. -/
theorem quotient_lowered {n : Nat} (pos : 1 ≤ n) (size : Nat) (valueAge : Int) :
    quotient (threshold * (size + n : Nat) - valueAge) n =
      .ok (loweredThreshold threshold size n valueAge) := by
  rw [quotient, if_neg (by omega), loweredThreshold]

/-- The sum that is looked up is there. -/
theorem mayReach_eq {n : Nat} (fits : n ≤ low.length) (residual : Float) :
    mayReach (reachable low) n residual = !decide ((reachable low)[n]?.getD 0 < residual) := by
  rw [mayReach, getElem?_reachable low fits, Option.any_some, Option.getD_some]

/-- One number of low coins is tried; where nothing comes of it, the next ones are. -/
theorem topUpWith_cons (split : Split s low high) (finds : Finds search s low)
    (thereWindow : ∀ c ∈ window, s.coin (.nat c.2) = .ok c.1) {subset : Subset}
    (indexes : subset.indexes = positions window)
    (totals : subset.totals = .of (window.map (·.1))) {n : Nat} (pos : 1 ≤ n)
    (fits : n ≤ low.length) {rest : List Nat} {later : Option (List Index)}
    (next : topUpWith search limits threshold target s low.length subset (reachable low) rest =
      .ok later) :
    topUpWith search limits threshold target s low.length subset (reachable low) (n :: rest) =
      .ok (match topUpAt (fun n lowered missing => select n lowered missing low)
          (reachable low) threshold (limits.goal target) window n with
        | some chosen => some (positions chosen)
        | none => later) := by
  let inner : Limits := ⟨n, limits.minChange, limits.minChange_whole⟩
  set residual := target - subset.totals.amount with isResidual
  set lowered := loweredThreshold threshold window.length n subset.totals.valueAge with isLowered
  -- what the inner search is given
  have made : Limits.of? n limits.minChange = .ok inner :=
    limits_of? (Int.natCast_nonneg n) limits
  have divides : quotient (threshold * (subset.size + n : Nat) - subset.totals.valueAge) n =
      .ok lowered := by
    rw [quotient_lowered pos, Subset.size_of_indexes indexes]
  have missing : (limits.goal target).after subset.totals.amount = inner.goal residual := rfl
  have reach : mayReach (reachable low) n (inner.goal residual).target =
      !decide ((reachable low)[n]?.getD 0 < residual) := mayReach_eq fits residual
  have searched := finds inner lowered residual
  rw [topUpWith, next, topUpAt, ← totals]
  simp only [missing, reach, ← isLowered, ← isResidual]
  by_cases short : (reachable low)[n]?.getD 0 < residual
  · simp only [short, if_true, decide_true, Bool.not_true, Bool.false_eq_true, if_false]
  · simp only [short, if_false, decide_false, Bool.not_false, if_true, divides, made,
      split.view_low, Step.of_ok, ok_bind]
    cases found : select n lowered (inner.goal residual) low with
    | none =>
        rw [show inner.budget = n from rfl, found] at searched
        obtain ⟨sorted, ran⟩ := searched
        simp only [ran, Option.bind_none]
    | some chosen =>
        rw [show inner.budget = n from rfl, found] at searched
        obtain ⟨places, sorted, ran, lead⟩ := searched
        have thereChosen : ∀ c ∈ chosen, s.coin (.nat c.2) = .ok c.1 := by
          intro c listed
          exact split.thereLow c ((select_selects found).picked.among.subset listed)
        simp only [ran, combine_eq lead thereChosen thereWindow indexes totals, ok_bind,
          Option.bind_some]
        by_cases enough : averages threshold (window.length + chosen.length)
            ((chosen.map (·.1)).foldl Totals.add subset.totals).valueAge = true
        · simp only [enough, if_true]
          rfl
        · simp only [enough]
          rfl

theorem topUpWith_eq (split : Split s low high) (finds : Finds search s low)
    (thereWindow : ∀ c ∈ window, s.coin (.nat c.2) = .ok c.1) {subset : Subset}
    (indexes : subset.indexes = positions window)
    (totals : subset.totals = .of (window.map (·.1))) {numbers : List Nat}
    (inside : ∀ n ∈ numbers, 1 ≤ n ∧ n ≤ low.length) :
    topUpWith search limits threshold target s low.length subset (reachable low) numbers =
      .ok ((numbers.findSome? (topUpAt (fun n lowered missing => select n lowered missing low)
        (reachable low) threshold (limits.goal target) window)).map positions) := by
  induction numbers with
  | nil => rfl
  | cons n rest ih =>
      obtain ⟨⟨pos, fits⟩, others⟩ := List.forall_mem_cons.1 inside
      rw [topUpWith_cons split finds thereWindow indexes totals pos fits (ih others),
        List.findSome?_cons]
      cases topUpAt (fun n lowered missing => select n lowered missing low) (reachable low)
        threshold (limits.goal target) window n <;> rfl

end TopUp

/-! ## One level -/

section Level

variable {search : Search} {low high : List (Coin × Nat)}

theorem topUp_eq (split : Split s low high) (finds : Finds search s low) {size : Nat}
    (inside : size ≤ high.length) :
    topUp search limits threshold target s low.length size =
      .ok ((MinPriority.topUp (fun n lowered missing => select n lowered missing low)
        (reachable low) low.length limits.budget threshold (limits.goal target)
        (high.take size)).map positions) := by
  have read : (List.range low.length).mapM (fun n => s.coin (.nat n)) = .ok (low.map (·.1)) := by
    rw [← split.low_places]
    exact Source.mapM_coin split.thereLow
  obtain ⟨subset, made, indexes, totals⟩ := Subset.ofIndexes_eq (split.thereHigh size)
  rw [topUp, split.positions_high inside, made, read, Step.of_ok, ok_bind, Step.of_ok, ok_bind, MinPriority.topUp_eq,
    Subset.size_of_indexes indexes]
  apply topUpWith_eq split finds (split.thereHigh size) indexes totals
  intro n listed
  have bounds := List.mem_range'_1.1 listed
  omega

/-- The windows of several sizes, in turn. -/
theorem windows_eq (split : Split s low high) (finds : Finds search s low) {sizes : List Nat}
    (inside : ∀ size ∈ sizes, size ≤ high.length) {coins : List (Coin × Nat)}
    (isLow : low = MinPriority.low threshold coins)
    (isHigh : high = MinPriority.high threshold coins) :
    windows search limits threshold target s low.length sizes =
      match sizes.findSome? (attempt limits.budget threshold (limits.goal target) coins) with
      | some chosen => .ok (positions chosen)
      | none => .error (.fault (.noSelection target)) := by
  induction sizes with
  | nil => rfl
  | cons size rest ih =>
      obtain ⟨fits, others⟩ := List.forall_mem_cons.1 inside
      rw [windows, split.view_high fits, List.findSome?_cons, attempt, ← isHigh, ← isLow]
      cases fewest : (limits.goal target).fewest limits.budget (high.take size) with
      | none =>
          have choice : Policy.minNumber.choose limits.budget (limits.goal target)
              (Policy.minNumber.ordered (high.take size)) = none := fewest
          rw [Policy.apply_window_none (split.thereHigh size) choice]
          simp only [topUp_eq split finds fits, ok_bind]
          cases MinPriority.topUp (fun n lowered missing => select n lowered missing low)
              (reachable low) low.length limits.budget threshold (limits.goal target)
              (high.take size) with
          | none => exact ih others
          | some chosen => rfl
      | some found =>
          have choice : Policy.minNumber.choose limits.budget (limits.goal target)
              (Policy.minNumber.ordered (high.take size)) = some found := fewest
          obtain ⟨places, answer, lead⟩ := Policy.apply_window_some (split.thereHigh size) choice
          have thereFound : ∀ c ∈ found, s.coin (.nat c.2) = .ok c.1 := by
            intro c listed
            exact split.thereHigh size c ((Goal.fewest_eq_some fewest).1.among.subset listed)
          obtain ⟨subset, made, indexes, totals⟩ := Subset.ofIndexes_eq thereFound
          obtain ⟨padded, pads, paddedIndexes⟩ := pad_eq split.thereLow subset
          rw [answer]
          simp only [lead, Step.of_ok, ok_bind, made]
          rw [← split.low_places, pads, ok_bind, paddedIndexes, indexes, totals,
            Subset.size_of_indexes indexes]
          exact congrArg Except.ok List.map_append.symm

end Level

/-- A source whose coins can be read, split anywhere. -/
theorem split_at {coins : List Coin} (shown : s.Shows coins) (k : Nat) :
    Split s (coins.zipIdx.take k) (coins.zipIdx.drop k) := by
  refine ⟨?_, ?_⟩
  · rw [List.take_append_drop]
    exact shown.coin_zipIdx
  · rw [List.take_append_drop, List.zipIdx_map_snd, ← List.range_eq_range', shown.size_eq]

theorem split_of_shows {coins : List Coin} (shown : s.Shows coins) (threshold : Int) :
    Split s (low threshold coins.zipIdx) (high threshold coins.zipIdx) :=
  split_at shown _

theorem inOrder_eq {search : Search} {coins : List Coin} (shown : s.Shows coins)
    (finds : high threshold coins.zipIdx ≠ [] → Finds search s (low threshold coins.zipIdx)) :
    inOrder search limits threshold target s =
      match select limits.budget threshold (limits.goal target) coins.zipIdx with
      | some chosen => .ok (positions chosen)
      | none => .error (.fault (.noSelection target)) := by
  have split := split_of_shows shown threshold
  have places : coins.zipIdx.map (·.2) = List.range s.size := by
    rw [List.zipIdx_map_snd, ← List.range_eq_range', shown.size_eq]
  rw [inOrder, ← places, firstReaching_eq shown.coin_zipIdx, ok_bind,
    List.find?_eq_getElem?_findIdx, select_eq]
  by_cases none : high threshold coins.zipIdx = []
  · have beyond := List.drop_eq_nil_iff.1 none
    rw [List.getElem?_eq_none beyond, none]
    rfl
  · have bound : (coins.zipIdx.findIdx fun c => threshold ≤ c.1.valueAge) < coins.zipIdx.length :=
      Nat.lt_of_not_le (mt List.drop_eq_nil_of_le none)
    have lowLength : (low threshold coins.zipIdx).length =
        coins.zipIdx.findIdx fun c => threshold ≤ c.1.valueAge := by
      rw [low, List.length_take, Nat.min_eq_left bound.le]
    have highLength : s.size - (low threshold coins.zipIdx).length =
        (high threshold coins.zipIdx).length := by
      rw [split.size_eq, Nat.add_sub_cancel_left]
    rw [List.getElem?_eq_getElem bound, Option.map_some, List.getElem_zipIdx, Nat.zero_add]
    simp only
    rw [← lowLength, highLength]
    refine windows_eq split (finds none) ?_ rfl rfl
    intro size listed
    have := List.mem_range'_1.1 listed
    omega

/-! ## All levels -/

/-- What the policy gives, as the outcome of a search. -/
def expected (limits : Limits) (threshold : Int) (target : Float) (s : Source) : Outcome :=
  let result := (Policy.minPriority threshold).apply limits.budget (limits.goal target) s
  (Step.of (result.1.map (·.map Index.nat)), result.2)

/-- A search that gives what the policy gives finds what it should. -/
theorem finds_of_expected {search : Search} {low : List (Coin × Nat)}
    (there : ∀ c ∈ low, s.coin (.nat c.2) = .ok c.1) (sorted : Order.Ascending low)
    (gives : ∀ inner lowered residual,
      search inner lowered residual (tagged s low) =
        expected inner lowered residual (tagged s low)) : Finds search s low := by
  intro inner lowered residual
  have stays : (Policy.minPriority lowered).ordered low = low := Order.arrange_of_ascending sorted
  rw [gives, expected]
  cases found : select inner.budget lowered (inner.goal residual) low with
  | none =>
      have choice : (Policy.minPriority lowered).choose inner.budget (inner.goal residual)
          ((Policy.minPriority lowered).ordered low) = none := stays.symm ▸ found
      rw [Policy.apply_window_none there choice]
      exact ⟨_, rfl⟩
  | some chosen =>
      have choice : (Policy.minPriority lowered).choose inner.budget (inner.goal residual)
          ((Policy.minPriority lowered).ordered low) = some chosen := stays.symm ▸ found
      obtain ⟨places, answer, lead⟩ := Policy.apply_window_some there choice
      rw [answer]
      exact ⟨_, _, rfl, List.mapM_map.trans lead⟩

/-- A search gives what the policy gives. -/
theorem run_eq {coins : List Coin} (shown : s.Shows coins) :
    run limits threshold target s = expected limits threshold target s := by
  induction length : coins.length using Nat.strong_induction_on
    generalizing limits threshold target s coins with
  | _ n ih =>
      subst length
      set p := Policy.minPriority threshold
      have shownSorted := shown.sorted p
      set ordered := (p.ordered coins.zipIdx).map (·.1) with isOrdered
      have ordering : ordered.length = coins.length := by
        simpa [isOrdered] using (p.ordered_perm coins.zipIdx).length_eq
      have swaps : s.sortSwaps (.ascending .valueAge) =
          .ok (Sort.swapsTo ((p.ordered coins.zipIdx).map (·.2))) := shown.swaps_eq p
      rw [run, level, swaps, expected, shown.apply_eq]
      refine Prod.ext ?_ rfl
      refine (inOrder_eq shownSorted fun some => ?_).trans ?_
      -- the inner searches are for fewer coins
      · have there := (split_of_shows shownSorted threshold).thereLow
        have sorted : Order.Ascending (low threshold ordered.zipIdx) :=
          ascending_low (Policy.ascending_ordered threshold coins)
        have fewer : (low threshold ordered.zipIdx).length < coins.length := by
          simpa [ordering] using length_low_lt some
        apply finds_of_expected there sorted
        intro inner lowered residual
        rw [if_pos]
        · exact ih _ fewer (Policy.shows_tagged there) (by simp)
        · rw [shown.size_eq, (Policy.shows_tagged there).size_eq, List.length_map]
          exact fewer
      · show _ = Step.of ((p.answer _ _ ordered).map _)
        rw [Policy.answer]
        show _ = Step.of (Except.map _ (match select _ _ _ ordered.zipIdx with
          | some chosen => _
          | none => _))
        cases select limits.budget threshold (limits.goal target) ordered.zipIdx with
        | none => rfl
        | some chosen => exact congrArg Except.ok (List.map_map ..).symm

/-- A search ends in positions or for want of a selection for its target, as the policy does. -/
theorem run_ends {coins : List Coin} (shown : s.Shows coins) (limits : Limits) (threshold : Int)
    (target : Float) :
    (∃ places : List Nat,
        (run limits threshold target s).1 = .ok (places.map .nat) ∧
        ((Policy.minPriority threshold).apply limits.budget (limits.goal target) s).1 =
          .ok places) ∨
      ((run limits threshold target s).1 = .error (.fault (.noSelection target)) ∧
        ((Policy.minPriority threshold).apply limits.budget (limits.goal target) s).1 =
          .error (.noSelection target)) := by
  rw [run_eq shown, expected, shown.apply_eq, Policy.answer]
  dsimp only
  split
  · left
    exact ⟨_, rfl, rfl⟩
  · right
    exact ⟨rfl, rfl⟩

/-! ## Smaller and smaller -/

section Smaller

variable {search search' : Search}

theorem mem_of_firstReaching {numbers : List Nat} {cutoff : Nat}
    (found : firstReaching threshold s numbers = .ok (some cutoff)) : cutoff ∈ numbers := by
  induction numbers with
  | nil => cases found
  | cons n rest ih =>
      rw [firstReaching] at found
      cases look : s.coin (.nat n) with
      | error fault =>
          rw [look] at found
          cases found
      | ok c =>
          rw [look, Step.of_ok, ok_bind] at found
          split at found
          · cases found
            exact List.mem_cons_self
          · exact List.mem_cons_of_mem n (ih found)

theorem topUpWith_congr {cutoff : Nat}
    (same : ∀ inner lowered residual,
      search inner lowered residual (stretch s 0 cutoff) =
        search' inner lowered residual (stretch s 0 cutoff))
    (window : Subset) (most : Array Float) (numbers : List Nat) :
    topUpWith search limits threshold target s cutoff window most numbers =
      topUpWith search' limits threshold target s cutoff window most numbers := by
  induction numbers with
  | nil => rfl
  | cons n rest ih => simp only [topUpWith, same, ih]

theorem windows_congr {cutoff : Nat}
    (same : ∀ inner lowered residual,
      search inner lowered residual (stretch s 0 cutoff) =
        search' inner lowered residual (stretch s 0 cutoff))
    (sizes : List Nat) :
    windows search limits threshold target s cutoff sizes =
      windows search' limits threshold target s cutoff sizes := by
  induction sizes with
  | nil => rfl
  | cons size rest ih => simp only [windows, topUp, topUpWith_congr same, ih]

/-- A level makes inner searches on smaller sources only: nothing else of `search` matters. -/
theorem level_congr
    (same : ∀ inner lowered residual low, low.size < s.size →
      search inner lowered residual low = search' inner lowered residual low) :
    level search limits threshold target s = level search' limits threshold target s := by
  unfold level
  cases s.sortSwaps (.ascending .valueAge) with
  | error fault => rfl
  | ok swaps =>
      refine Prod.ext ?_ rfl
      simp only [inOrder]
      cases found : firstReaching threshold (s.applySwaps swaps)
          (List.range (s.applySwaps swaps).size) with
      | error mishap => rfl
      | ok cutoff =>
          cases cutoff with
          | none => rfl
          | some cutoff =>
              have inside := List.mem_range.1 (mem_of_firstReaching found)
              apply windows_congr
              intro inner lowered residual
              apply same
              rw [Source.size_applySwaps] at inside
              simpa [stretch, Source.size] using inside

/-- The search is one level with the search itself for the inner levels. -/
theorem run_unfold (limits : Limits) (threshold : Int) (target : Float) (s : Source) :
    run limits threshold target s = level run limits threshold target s := by
  rw [run]
  apply level_congr
  intro inner lowered residual low smaller
  exact if_pos smaller

end Smaller

end CoinSelection.MinPriority.Checked
