/-
# CoinSelection.Proofs.Selection -- what a selector answers

`Selector.select_eq` says what comes out in the end: the policy chooses out of the caller's coins in
its own order, each tagged with its place in the caller's list, and the answer has the tags for
positions.

Hence the positions are places of the caller's list, different ones and within the budget, the
coins are those at the positions, and the totals are theirs (`select_reports`).  Amounts may be
any numbers.
-/
import Mathlib
import CoinSelection.Selector
import CoinSelection.Proofs.Policy
import CoinSelection.Proofs.Subset

namespace CoinSelection

open scoped List

set_option autoImplicit false

namespace Selector

theorem positions_eq (s : Selector) (target : Float) (coins : List Coin) :
    s.positions target (.collection coins.toArray) =
      match s.policy.choose s.args.budget ⟨target, s.args.minChangeAmount⟩
          (s.policy.ordered coins.zipIdx) with
      | some chosen => .ok (CoinSelection.positions chosen)
      | none => .error (.noSelection target) := by
  have there := Source.Shows.coin_zipIdx (Source.shows_collection coins.toArray)
  have places : Index.upTo coins.toArray.size =
      (CoinSelection.positions coins.zipIdx).toArray := by
    apply Array.ext
    · simp [Index.upTo]
    · intro k _ _
      simp [Index.upTo]
  have view : (Source.collection coins.toArray).whole =
      Policy.tagged (.collection coins.toArray) coins.zipIdx := congrArg _ places
  rw [positions, view, Policy.run]
  cases chooses : s.policy.choose s.args.budget ⟨target, s.args.minChangeAmount⟩
      (s.policy.ordered coins.zipIdx) with
  | none =>
      rw [Policy.apply_window_none there chooses]
      rfl
  | some chosen =>
      obtain ⟨places, answer, lead⟩ := Policy.apply_window_some there chooses
      rw [answer]
      exact lead

theorem materialize_eq (s : Selector) {coins : List Coin} {chosen : List (Coin × Nat)}
    (there : ∀ c ∈ chosen, coins[c.2]? = some c.1) :
    s.materialize (.collection coins.toArray) (CoinSelection.positions chosen) =
      .ok ⟨chosen.map (·.1), CoinSelection.positions chosen, .of (chosen.map (·.1)),
        s.policy.strategy⟩ := by
  have shown : (Source.collection coins.toArray).Shows coins :=
    Source.shows_collection coins.toArray
  have read : ∀ c ∈ chosen, (Source.collection coins.toArray).coin (.nat c.2) = .ok c.1 := by
    intro c inside
    obtain ⟨bound, value⟩ := List.getElem?_eq_some_iff.1 (there c inside)
    rw [shown.coin_eq bound, value]
  have all : (CoinSelection.positions chosen).mapM (Source.collection coins.toArray).coin =
      .ok (chosen.map (·.1)) := by
    rw [mapM_eq_ok_iff, List.map_map, List.map_map]
    exact List.map_congr_left read
  obtain ⟨subset, made, -, totals⟩ := Subset.ofIndexes_eq read
  rw [materialize, made]
  simp only [bind, Except.bind, all, totals]
  rfl

/-- What a selector answers to a target that it accepts. -/
theorem select_eq (s : Selector) {target : Float} (whole : (Whole.nat? target).isSome)
    (coins : List Coin) :
    s.select target coins =
      match s.policy.choose s.args.budget ⟨target, s.args.minChangeAmount⟩
          (s.policy.ordered coins.zipIdx) with
      | some chosen =>
          .ok ⟨chosen.map (·.1), CoinSelection.positions chosen, .of (chosen.map (·.1)),
            s.policy.strategy⟩
      | none => .error (.noSelection target) := by
  have accepted : (Whole.nat? target).isNone = false := by simpa using whole
  simp only [select, accepted, positions_eq]
  cases chooses : s.policy.choose s.args.budget ⟨target, s.args.minChangeAmount⟩
      (s.policy.ordered coins.zipIdx) with
  | none => rfl
  | some chosen =>
      have among := (Policy.choose_picked chooses).among.trans
        (s.policy.ordered_perm coins.zipIdx).subperm
      exact s.materialize_eq fun c inside =>
        List.mem_zipIdx_iff_getElem?.1 (among.subset inside)

/-- A selector that accepts its target selects, or there is no selection for that target. -/
theorem select_ends (s : Selector) {target : Float} (whole : (Whole.nat? target).isSome)
    (coins : List Coin) :
    (∃ r, s.select target coins = .ok r) ∨
      s.select target coins = .error (.noSelection target) := by
  rw [select_eq s whole]
  split
  · left
    exact ⟨_, rfl⟩
  · right
    rfl

/-- A target that is not a whole number or is negative is refused. -/
theorem whole_of_select {s : Selector} {target : Float} {coins : List Coin} {r : Selection}
    (found : s.select target coins = .ok r) : (Whole.nat? target).isSome := by
  by_contra refused
  have refused : (Whole.nat? target).isNone = true := by simpa using refused
  simp [select, refused, throw, throwThe, MonadExceptOf.throw, bind, Except.bind] at found

/-- Every selector reports places of the caller's list, the coins at them and their totals; and a
scan's total is one that it tested. -/
theorem select_reports {s : Selector} {target : Float} {coins : List Coin} {r : Selection}
    (found : s.select target coins = .ok r) :
    ∃ places : List Nat, r.indexes = places.map .nat ∧
      places.Nodup ∧ (∀ k ∈ places, k < coins.length) ∧
      1 ≤ places.length ∧ places.length ≤ s.args.budget ∧
      r.coins.map some = places.map (coins[·]?) ∧
      r.totals.valueAge = (r.coins.map (·.valueAge)).sum ∧
      r.totals.amount = (r.coins.map (·.amount)).foldl (· + ·) 0 ∧
      ((∀ threshold, s.policy ≠ .minPriority threshold) →
        Goal.met ⟨target, s.args.minChangeAmount⟩ r.totals.amount) := by
  rw [select_eq s (whole_of_select found)] at found
  split at found
  · rename_i chosen chooses
    cases found
    have picked := Policy.choose_picked chooses
    have fromList : Picked s.args.budget coins.zipIdx chosen :=
      ⟨picked.among.trans (s.policy.ordered_perm coins.zipIdx).subperm, picked.nonempty, picked.few⟩
    obtain ⟨nodup, inside, nonempty, few⟩ := fromList.places
    refine ⟨chosen.map (·.2), ?_, nodup, inside, nonempty, few, ?_, Totals.of_valueAge _,
      Totals.of_amount _, fun isScan => Policy.choose_met isScan chooses⟩
    · rw [List.map_map]
      rfl
    · rw [List.map_map, List.map_map]
      apply List.map_congr_left
      intro c listed
      exact (fromList.there c listed).symm
  · cases found

/-- The two largest of three coins, reported at their places in the caller's list. -/
theorem select_reports_minNumber :
    ∃ (s : Selector) (coins : List Coin) (r : Selection), s.select 8 coins = .ok r ∧
      (∃ places : List Nat, r.indexes = places.map .nat ∧ places.Nodup ∧ places.length ≤ 2 ∧
        r.coins.map some = places.map (coins[·]?)) ∧
      r.indexes = [.nat 1, .nat 2] ∧ Goal.met ⟨8, 0⟩ r.totals.amount := by
  let s : Selector := ⟨.minNumber, ⟨2, 0, by decide +kernel, by decide +kernel⟩⟩
  let coins : List Coin := [⟨"small", 1, 4⟩, ⟨"large", 5, 2⟩, ⟨"medium", 3, 9⟩]
  have answer : (s.select 8 coins).toOption.map (·.indexes) = some [.nat 1, .nat 2] := by
    decide +kernel
  cases found : s.select 8 coins with
  | error fault =>
      rw [found] at answer
      cases answer
  | ok r =>
      rw [found] at answer
      obtain ⟨places, indexes, nodup, -, -, few, read, -, -, met⟩ := select_reports found
      have budget : s.args.budget = 2 := by decide +kernel
      exact ⟨s, coins, r, found, ⟨places, indexes, nodup, budget ▸ few, read⟩,
        Option.some.inj answer, met fun _ => nofun⟩

end Selector

end CoinSelection
