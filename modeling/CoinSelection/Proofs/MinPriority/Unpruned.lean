/-
# CoinSelection.Proofs.MinPriority.Unpruned -- passing over loses nothing

`Unpruned.select` is the procedure on lists and integers: it sorts at every level, tries windows in
growing order, takes the fewest coins of a window that pay, pads them, and otherwise tops the window
up with every number of low coins.  No number is passed over, nothing is summed in advance, and the
padding sums anew what it holds.

Where amounts are counted one by one, the search finds what this procedure finds, and nothing
otherwise (`select_eq_unpruned`).  By induction on the number of coins: a number that the search
passes over is one for which the procedure finds nothing, because what it finds pays
(`Selects.pays`) and no choice of so few coins is worth as much (`mayReach_of_paid`).
-/
import Mathlib
import CoinSelection.Proofs.MinPriority.Reach
import CoinSelection.Proofs.MinPriority.Sound

namespace CoinSelection.MinPriority

open Binary64 (Exact lastExact)
open scoped List

set_option autoImplicit false

variable {τ : Type}

/-! ## The procedure -/

namespace Unpruned

/-- Ascending by value-age; equal coins keep their order. -/
def byAge (coins : List (Coin × τ)) : List (Coin × τ) :=
  coins.mergeSort fun a b => decide (a.1.valueAge ≤ b.1.valueAge)

/-- Descending by amount; equal coins keep their order. -/
def byAmount (coins : List (Coin × τ)) : List (Coin × τ) :=
  coins.mergeSort fun a b => decide (b.1.units ≤ a.1.units)

def ages (coins : List (Coin × τ)) : Int := (coins.map (·.1.valueAge)).sum

/-- The fewest of the largest coins that pay. -/
def fewest (budget : Nat) (d : Due) (coins : List (Coin × τ)) : Option (List (Coin × τ)) :=
  let ordered := byAmount coins
  ((List.range' 1 (min budget ordered.length)).find? fun k =>
    decide (d.Paid (worth (ordered.take k)))).map ordered.take

/-- Adds low coins while there is room.  Ageless coins are skipped, the first coin that brings the
average below the threshold ends it, and a coin with which the total no longer pays is left out. -/
def pad (budget : Nat) (threshold : Int) (d : Due) (chosen : List (Coin × τ)) :
    List (Coin × τ) → List (Coin × τ)
  | [] => chosen
  | c :: rest =>
      if budget ≤ chosen.length then chosen
      else if c.1.valueAge = 0 then pad budget threshold d chosen rest
      else if ages (chosen ++ [c]) < threshold * (chosen ++ [c]).length then chosen
      else if d.Paid (worth (chosen ++ [c])) then pad budget threshold d (chosen ++ [c]) rest
      else pad budget threshold d chosen rest

/-- The selection, with a top-up tried for every number of low coins. -/
def select (budget : Nat) (threshold : Int) (d : Due) (coins : List (Coin × τ)) :
    Option (List (Coin × τ)) :=
  let sorted := byAge coins
  let cutoff := sorted.findIdx fun c => threshold ≤ c.1.valueAge
  if _ : cutoff < sorted.length then
    let low := sorted.take cutoff
    let high := sorted.drop cutoff
    (List.range' 1 high.length).findSome? fun size =>
      let window := high.take size
      match fewest budget d window with
      | some found => some (pad budget threshold d found low)
      | none =>
          (List.range' 1 (min low.length (budget - window.length))).findSome? fun n =>
            match select n ((threshold * (window.length + n : Nat) - ages window).tdiv n)
                (d.after (worth window)) low with
            | some extra =>
                if threshold * (window ++ extra).length ≤ ages (window ++ extra) then
                  some (window ++ extra)
                else none
            | none => none
  else none
termination_by coins.length
decreasing_by
  have bound : (byAge coins).findIdx (fun c => threshold ≤ c.1.valueAge) < (byAge coins).length :=
    ‹_›
  simp only [List.length_take]
  simp only [byAge, List.length_mergeSort] at bound ⊢
  omega

/-- A whole window with the first number of low coins that make up for what it lacks. -/
def topUp (budget : Nat) (threshold : Int) (d : Due) (low window : List (Coin × τ)) :
    Option (List (Coin × τ)) :=
  (List.range' 1 (min low.length (budget - window.length))).findSome? fun n =>
    match select n ((threshold * (window.length + n : Nat) - ages window).tdiv n)
        (d.after (worth window)) low with
    | some extra =>
        if threshold * (window ++ extra).length ≤ ages (window ++ extra) then
          some (window ++ extra)
        else none
    | none => none

theorem select_eq (budget : Nat) (threshold : Int) (d : Due) {coins : List (Coin × τ)}
    (sorted : Order.Ascending coins) :
    select budget threshold d coins =
      (List.range' 1 (high threshold coins).length).findSome? fun size =>
        match fewest budget d ((high threshold coins).take size) with
        | some found => some (pad budget threshold d found (low threshold coins))
        | none =>
            topUp budget threshold d (low threshold coins) ((high threshold coins).take size) := by
  have inOrder : byAge coins = coins :=
    List.mergeSort_of_pairwise (sorted.imp fun le => decide_eq_true le)
  rw [select]
  simp only [inOrder]
  split
  · rfl
  · have none : high threshold coins = [] := List.drop_eq_nil_of_le (by omega)
    rw [none]
    rfl

/-- The sorted order that places are told in. -/
def inOrder (coins : List Coin) : List Coin :=
  coins.mergeSort fun a b => decide (a.valueAge ≤ b.valueAge)

/-- The places of the selection in the sorted order. -/
def places (budget : Nat) (threshold : Int) (d : Due) (coins : List Coin) : Option (List Nat) :=
  (select budget threshold d (inOrder coins).zipIdx).map (·.map (·.2))

end Unpruned

/-! ## The parts agree -/

theorem findSome?_congr {α β : Type} {f f' : α → Option β} {xs : List α}
    (same : ∀ x ∈ xs, f x = f' x) : xs.findSome? f = xs.findSome? f' := by
  induction xs with
  | nil => rfl
  | cons x xs ih =>
      obtain ⟨head, others⟩ := List.forall_mem_cons.1 same
      rw [List.findSome?_cons, List.findSome?_cons, head, ih others]

variable {budget : Nat} {threshold : Int} {g : Goal} {coins : List (Coin × τ)}

theorem fewest_eq_unpruned (goal : g.Counted) (counted : CountedCoins coins) :
    g.fewest budget coins = Unpruned.fewest budget g.due coins := by
  set ordered := Order.largestFirst.arrange coins with isOrdered
  have perm : ordered ~ coins := Order.largestFirst.arrange_perm coins
  have sorted : Unpruned.byAmount coins = ordered := counted.arrange_eq.symm
  have met : ∀ k, g.met (((ordered.map (·.1.amount)).take k).foldl (· + ·) 0) =
      decide (g.due.Paid (worth (ordered.take k))) := by
    intro k
    have front := (counted.subperm ((List.take_sublist k _).subperm.trans perm.subperm)).1
    have sum := front.addable.exact_foldl Binary64.exact_zero
    rw [zero_add, List.map_take] at sum
    rw [Bool.eq_iff_iff, decide_eq_true_iff]
    exact goal.met_iff sum
  have shortest : g.shortestPrefix budget 0 (ordered.map (·.1.amount)) =
      (List.range' 1 (min budget ordered.length)).find? fun k =>
        decide (g.due.Paid (worth (ordered.take k))) := by
    apply Option.ext
    intro k
    simp only [Goal.shortestPrefix_eq_some_iff, List.find?_range'_eq_some, met, List.length_map,
      List.mem_range'_1]
    constructor
    · rintro ⟨pos, within, inside, paid, least⟩
      refine ⟨paid, by omega, ?_⟩
      intro j posJ before
      simp [least j posJ before]
    · rintro ⟨paid, bounds, least⟩
      refine ⟨by omega, by omega, by omega, paid, ?_⟩
      intro j posJ before
      simpa using least j posJ before
  rw [Goal.fewest, Goal.scan, ← isOrdered, shortest, Unpruned.fewest, sorted]

theorem padding_eq_unpruned (goal : g.Counted) {chosen : List (Coin × τ)} {totals : Totals}
    (exact : Exact totals.amount (worth chosen)) (ages : totals.valueAge = Unpruned.ages chosen)
    (addable : Addable (worth chosen) coins) :
    chosen ++ padding budget threshold g chosen.length totals coins =
      Unpruned.pad budget threshold g.due chosen coins := by
  induction coins generalizing chosen totals with
  | nil => simp [padding, Unpruned.pad]
  | cons c rest ih =>
      have extended : worth (chosen ++ [c]) = worth chosen + c.1.units := by simp
      have sum : Exact (totals.add c.1).amount (worth (chosen ++ [c])) :=
        extended ▸ addable.add exact
      have older : (totals.add c.1).valueAge = Unpruned.ages (chosen ++ [c]) := by
        simp [Unpruned.ages, Totals.add, ages]
      have length : (chosen ++ [c]).length = chosen.length + 1 := by simp
      rw [padding, Unpruned.pad]
      split
      · exact List.append_nil _
      · split
        · exact ih exact ages addable.skip
        · have average :
              (!averages threshold (chosen.length + 1) (totals.add c.1).valueAge) = true ↔
                Unpruned.ages (chosen ++ [c]) < threshold * (chosen ++ [c]).length := by
            rw [averages, older, length, Bool.not_eq_true', decide_eq_false_iff_not, not_le]
          have met := goal.met_iff sum
          dsimp only
          by_cases below : Unpruned.ages (chosen ++ [c]) < threshold * (chosen ++ [c]).length
          · rw [if_pos (average.2 below), if_pos below, List.append_nil]
          · rw [if_neg (mt average.1 below), if_neg below]
            by_cases paid : g.due.Paid (worth (chosen ++ [c]))
            · rw [if_pos (met.2 paid), if_pos paid,
                ← ih sum older (extended.symm ▸ addable.take), length, List.append_assoc]
              rfl
            -- the search has added the coin and takes it out again
            · rw [if_neg (mt met.1 paid), if_neg paid]
              refine ih (addable.back exact) ?_ addable.skip
              exact (add_sub_cancel_right _ _).trans ages

/-! ## The search and the procedure -/

/-- Topping up agrees where the searches among the low coins do. -/
theorem topUp_eq_unpruned (goal : g.Counted) (change : 0 ≤ Whole.units g.minChange)
    {low window : List (Coin × τ)} (lowCounted : CountedCoins low)
    (windowCounted : CountedCoins window) (nonempty : window ≠ [])
    (short : g.fewest budget window = none)
    (same : ∀ n lowered missing, missing.Counted → 0 ≤ Whole.units missing.minChange →
      select n lowered missing low = Unpruned.select n lowered missing.due low) :
    topUp (fun n lowered missing => select n lowered missing low) (reachable low) low.length
        budget threshold g window =
      Unpruned.topUp budget threshold g.due low window := by
  rw [topUp_eq]
  apply findSome?_congr
  intro n listed
  have bounds := List.mem_range'_1.1 listed
  have unpaid := goal.not_paid_of_fewest windowCounted nonempty (by omega) short
  obtain ⟨rest, due⟩ := goal.after windowCounted.exact_total windowCounted.nonneg unpaid
  set totals := Totals.of (window.map (·.1)) with isTotals
  have ages : totals.valueAge = Unpruned.ages window := Totals.of_tagged_valueAge window
  have searched := same n (loweredThreshold threshold window.length n totals.valueAge) _ rest change
  rw [due] at searched
  rw [← ages]
  simp only [topUpAt, ← isTotals]
  cases found : select n (loweredThreshold threshold window.length n totals.valueAge)
      (g.after totals.amount) low with
  | none =>
      rw [← loweredThreshold, ← searched, found]
      simp
  | some extra =>
      have selects := select_selects found
      -- what is found pays, so this number was not passed over
      have reaches : mayReach (reachable low) n (g.after totals.amount).target :=
        mayReach_of_paid rest change lowCounted selects.picked.among selects.picked.few (by omega)
          (selects.pays rest lowCounted)
      have average : averages threshold (window.length + extra.length)
          ((extra.map (·.1)).foldl Totals.add totals).valueAge =
            decide (threshold * (window ++ extra).length ≤ Unpruned.ages (window ++ extra)) := by
        rw [averages, Totals.foldl_add_valueAge, ages, List.length_append]
        simp [Unpruned.ages, Function.comp_def]
      rw [← loweredThreshold, ← searched, found, if_pos reaches, Option.bind_some, average]
      simp

/-- The search finds what the procedure finds. -/
theorem select_eq_unpruned (goal : g.Counted) (change : 0 ≤ Whole.units g.minChange)
    (counted : CountedCoins coins) (sorted : Order.Ascending coins) :
    select budget threshold g coins = Unpruned.select budget threshold g.due coins := by
  induction measure : coins.length using Nat.strong_induction_on
    generalizing budget threshold g coins with
  | _ length ih =>
      subst measure
      rw [select_eq, Unpruned.select_eq _ _ _ sorted]
      apply findSome?_congr
      intro size listed
      have bounds := List.mem_range'_1.1 listed
      have some : high threshold coins ≠ [] := by
        rw [← List.length_pos_iff]
        omega
      have nonempty : (high threshold coins).take size ≠ [] := by
        rw [← List.length_pos_iff, List.length_take]
        omega
      have windowCounted := counted_window counted threshold size
      have lowCounted := counted_low counted threshold
      unfold attempt
      dsimp only
      have fewest : g.fewest budget ((high threshold coins).take size) =
          Unpruned.fewest budget g.due ((high threshold coins).take size) :=
        fewest_eq_unpruned goal windowCounted
      cases found : g.fewest budget ((high threshold coins).take size) with
      | none =>
          rw [← fewest, found]
          apply topUp_eq_unpruned goal change lowCounted windowCounted nonempty found
          intro n lowered missing rest changeRest
          exact ih _ (length_low_lt some) rest changeRest lowCounted (ascending_low sorted) rfl
      | some chosen =>
          rw [← fewest, found]
          obtain ⟨chosenCounted, addable⟩ := addable_low counted (subperm_high_of_fewest found)
          exact congrArg Option.some (padding_eq_unpruned goal chosenCounted.exact_total
            (Totals.of_tagged_valueAge chosen) addable)

/-! ## Runs -/

theorem ordered_eq_inOrder (threshold : Int) (coins : List Coin) :
    ((Policy.minPriority threshold).ordered coins.zipIdx).map (·.1) = Unpruned.inOrder coins := by
  show ((Order.ascending .valueAge).arrange coins.zipIdx).map (·.1) = _
  rw [Order.arrange_eq_mergeSort fun _ _ => rfl,
    List.map_mergeSort (s := fun a b : Coin => decide (a.valueAge ≤ b.valueAge))
      fun a _ b _ => Order.notAfter_valueAge a b,
    List.zipIdx_map_fst]
  rfl

/-- A run answers with the places that the procedure finds, in the same sorted order, and fails
where the procedure does. -/
theorem run_eq_unpruned {s : Source} {coins : List Coin} (shown : s.Shows coins) (args : Args)
    (threshold : Int) {target : Float} (goal : Goal.Counted ⟨target, args.minChangeAmount⟩)
    (counted : CountedCoins coins.zipIdx) :
    ((Policy.minPriority threshold).run args target s).1 =
        (match Unpruned.places args.budget threshold
            ⟨Whole.units target, Whole.units args.minChangeAmount⟩ coins with
        | some places => .ok places
        | none => .error (.noSelection target)) ∧
      ((Policy.minPriority threshold).run args target s).2.Shows (Unpruned.inOrder coins) := by
  have sorted := Policy.ascending_ordered threshold coins
  have ordering : Unpruned.inOrder coins ~ coins := List.mergeSort_perm _ _
  have orderedCounted : CountedCoins (Unpruned.inOrder coins).zipIdx := counted.retag (by
    rwa [List.zipIdx_map_fst, List.zipIdx_map_fst])
  have change : 0 ≤ Whole.units args.minChangeAmount :=
    Whole.units_nonneg args.minChangeAmount_whole
  rw [ordered_eq_inOrder] at sorted
  rw [Policy.run, shown.apply_eq, ordered_eq_inOrder]
  refine ⟨?_, ordered_eq_inOrder threshold coins ▸ shown.sorted _⟩
  have agree : select args.budget threshold ⟨target, args.minChangeAmount⟩
      (Unpruned.inOrder coins).zipIdx =
        Unpruned.select args.budget threshold
          ⟨Whole.units target, Whole.units args.minChangeAmount⟩ (Unpruned.inOrder coins).zipIdx :=
    select_eq_unpruned goal change orderedCounted sorted
  simp only [Policy.answer, Policy.choose, agree, Unpruned.places]
  cases Unpruned.select args.budget threshold
      ⟨Whole.units target, Whole.units args.minChangeAmount⟩
      (Unpruned.inOrder coins).zipIdx <;> rfl

/-- An aged coin that falls short: the procedure finds the top-up that the search finds. -/
theorem run_eq_unpruned_topUp :
    ∃ (args : Args) (coins : List Coin),
      ((Policy.minPriority 3).run args 8 (.collection coins.toArray)).1.toOption = some [1, 0] ∧
      Unpruned.places args.budget 3 ⟨8, 0⟩ coins = some [1, 0] := by
  let args : Args := ⟨2, 0, by decide +kernel, by decide +kernel⟩
  let coins : List Coin := [⟨"aged", 5, 10⟩, ⟨"young", 3, 2⟩]
  have answer : ((Policy.minPriority 3).run args 8 (.collection coins.toArray)).1.toOption =
      some [1, 0] := by
    decide +kernel
  have counted : CountedCoins coins.zipIdx := ⟨by decide +kernel, by decide +kernel⟩
  have goal : Goal.Counted ⟨8, args.minChangeAmount⟩ :=
    ⟨⟨by decide +kernel, by decide +kernel⟩, ⟨by decide +kernel, by decide +kernel⟩,
      by decide +kernel⟩
  have agree := (run_eq_unpruned (Source.shows_collection coins.toArray) args 3 goal counted).1
  have target : Whole.units 8 = 8 := by decide +kernel
  have change : Whole.units args.minChangeAmount = 0 := by decide +kernel
  refine ⟨args, coins, answer, ?_⟩
  rw [target, change] at agree
  rw [agree] at answer
  cases found : Unpruned.places args.budget 3 ⟨8, 0⟩ coins with
  | none =>
      rw [found] at answer
      cases answer
  | some places =>
      rw [found] at answer
      exact answer

end CoinSelection.MinPriority
