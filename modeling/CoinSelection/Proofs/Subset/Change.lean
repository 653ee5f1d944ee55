/-
# CoinSelection.Proofs.Subset.Change -- what adding and returning coins comes to

The totals of a subset go up and down one coin at a time.  The value-age is exact, so it has changed
by the value-ages of the coins that were added less those of the coins that were returned
(`foldl_apply_valueAge`).  So has the amount, as long as all amounts are whole and the running totals
are counted one by one (`Counted.exact_foldl`); the amounts themselves may be larger than that.
-/
import Mathlib
import CoinSelection.Proofs.Binary64.Large
import CoinSelection.Proofs.Counted

namespace CoinSelection.Subset

open Binary64 (Exact lastExact)

set_option autoImplicit false

/-- A change to the totals of a subset. -/
inductive Change where
  | added (c : Coin)
  | returned (c : Coin)

namespace Change

def coin : Change → Coin
  | added c | returned c => c

def added? : Change → Option Coin
  | added c => some c
  | returned _ => none

def returned? : Change → Option Coin
  | added _ => none
  | returned c => some c

def apply (totals : Totals) : Change → Totals
  | added c => totals.add c
  | returned c => totals.remove c

/-- What one change comes to, by some measure of coins. -/
def worth (measure : Coin → Int) : Change → Int
  | added c => measure c
  | returned c => -measure c

/-- What was added less what was returned, by some measure of coins. -/
def net (measure : Coin → Int) (changes : List Change) : Int :=
  ((changes.filterMap added?).map measure).sum - ((changes.filterMap returned?).map measure).sum

variable {change : Change} {changes : List Change} {coins : List Coin} {totals : Totals} {n : Int}

/-! ## Sums -/

@[simp] theorem net_nil (measure : Coin → Int) : net measure [] = 0 := rfl

@[simp] theorem net_cons (measure : Coin → Int) (change : Change) (changes : List Change) :
    net measure (change :: changes) = change.worth measure + net measure changes := by
  cases change with
  | added c =>
      simp only [net, added?, returned?, worth, List.filterMap_cons, List.map_cons, List.sum_cons]
      ring
  | returned c =>
      simp only [net, added?, returned?, worth, List.filterMap_cons, List.map_cons, List.sum_cons]
      ring

theorem net_append (measure : Coin → Int) (first second : List Change) :
    net measure (first ++ second) = net measure first + net measure second := by
  simp only [net, List.filterMap_append, List.map_append, List.sum_append]
  ring

theorem net_map_added (measure : Coin → Int) (coins : List Coin) :
    net measure (coins.map added) = (coins.map measure).sum := by
  induction coins with
  | nil => rfl
  | cons c coins ih => rw [List.map_cons, net_cons, ih, List.map_cons, List.sum_cons, worth]

theorem apply_valueAge (totals : Totals) (change : Change) :
    (change.apply totals).valueAge = totals.valueAge + change.worth Coin.valueAge := by
  cases change <;> rfl

theorem foldl_apply_valueAge (changes : List Change) (totals : Totals) :
    (changes.foldl apply totals).valueAge = totals.valueAge + net Coin.valueAge changes := by
  induction changes generalizing totals with
  | nil => exact (add_zero _).symm
  | cons change changes ih => rw [List.foldl_cons, ih, apply_valueAge, net_cons, add_assoc]

/-- Coins that are only added. -/
theorem foldl_apply_added (coins : List Coin) (totals : Totals) :
    (coins.map added).foldl apply totals = coins.foldl Totals.add totals :=
  List.foldl_map

/-! ## Amounts -/

/-- The amounts are whole, and the running totals are counted one by one. -/
structure Counted (changes : List Change) : Prop where
  whole : ∀ change ∈ changes, (Whole.int? change.coin.amount).isSome
  small : ∀ front ∈ changes.inits, (net Coin.units front).natAbs ≤ lastExact

theorem exact_apply (exact : Exact totals.amount n)
    (whole : (Whole.int? change.coin.amount).isSome)
    (small : (n + change.worth Coin.units).natAbs ≤ lastExact) :
    Exact (change.apply totals).amount (n + change.worth Coin.units) := by
  obtain ⟨units, isInt⟩ := Option.isSome_iff_exists.1 whole
  have isUnits : change.coin.units = units := by
    rw [Coin.units, Whole.units, isInt, Option.getD_some]
  rw [← isUnits] at isInt
  cases change with
  | added c => exact exact.add_whole isInt small
  | returned c => exact exact.sub_whole isInt small

/-- From a running total of `n` on. -/
theorem exact_foldl_from (exact : Exact totals.amount n)
    (whole : ∀ change ∈ changes, (Whole.int? change.coin.amount).isSome)
    (small : ∀ front ∈ changes.inits, (n + net Coin.units front).natAbs ≤ lastExact) :
    Exact (changes.foldl apply totals).amount (n + net Coin.units changes) := by
  induction changes generalizing totals n with
  | nil => simpa using exact
  | cons change changes ih =>
      obtain ⟨head, others⟩ := List.forall_mem_cons.1 whole
      have within : ∀ front ∈ changes.inits,
          (n + change.worth Coin.units + net Coin.units front).natAbs ≤ lastExact := by
        intro front listed
        have longer : change :: front ∈ (change :: changes).inits := by simpa using listed
        simpa [add_assoc] using small _ longer
      have first : (n + change.worth Coin.units).natAbs ≤ lastExact := by
        simpa using within [] (by simp)
      rw [List.foldl_cons, net_cons, ← add_assoc]
      exact ih (exact_apply exact head first) others within

theorem Counted.exact_foldl (counted : Counted changes) :
    Exact (changes.foldl apply .zero).amount (net Coin.units changes) := by
  have exact : Exact (changes.foldl apply .zero).amount (0 + net Coin.units changes) :=
    exact_foldl_from Binary64.exact_zero counted.whole (by simpa using counted.small)
  rwa [zero_add] at exact

/-- Where no amount is negative, the running totals of coins that are only added stay below what
they come to. -/
theorem counted_of_nonneg (whole : ∀ c ∈ coins, (Whole.nat? c.amount).isSome)
    (small : ((coins.map Coin.units).sum).natAbs ≤ lastExact) : Counted (coins.map added) := by
  constructor
  · intro change listed
    obtain ⟨c, inside, rfl⟩ := List.mem_map.1 listed
    exact Option.isSome_iff_exists.2 ⟨_, Whole.int?_eq_units (whole c inside)⟩
  · intro front listed
    obtain ⟨rest, parts⟩ := (List.mem_inits _ _).1 listed
    obtain ⟨first, second, rfl, rfl, rfl⟩ := List.map_eq_append_iff.1 parts.symm
    obtain ⟨wholeFirst, wholeSecond⟩ := List.forall_mem_append.1 whole
    have sumFirst : 0 ≤ (first.map Coin.units).sum :=
      List.sum_nonneg (by simpa using fun c inside => Coin.units_nonneg (wholeFirst c inside))
    have sumSecond : 0 ≤ (second.map Coin.units).sum :=
      List.sum_nonneg (by simpa using fun c inside => Coin.units_nonneg (wholeSecond c inside))
    rw [List.map_append, List.sum_append] at small
    rw [net_map_added]
    omega

end Change

end CoinSelection.Subset
