/-
# CoinSelection.Proofs.Counted -- amounts that are counted one by one

Where amounts, target and least change are whole and no sum of them passes `lastExact`, binary64
computes with integers.  `Goal.Counted` and `CountedCoins` say so of a goal and of coins, and
`Due` is a goal in integers: the running totals are exact (`exact_total`), and a goal is met when
its `Due` is paid (`Goal.Counted.met_iff`).

Both hold on for what is left of a goal after some coins that do not pay for it
(`Goal.Counted.after`), and for coins taken out of others (`CountedCoins.subperm`).
-/
import Mathlib
import CoinSelection.Proofs.Binary64.Exact
import CoinSelection.Proofs.Scan

namespace CoinSelection

open Binary64 (Exact lastExact exact_zero)
open scoped List

set_option autoImplicit false

variable {τ : Type}

/-! ## Integers for numbers -/

/-- The integer that a number is; zero for the others. -/
def Whole.units (x : Float) : Int := (Whole.int? x).getD 0

theorem Whole.int?_eq_units {x : Float} (whole : (nat? x).isSome) : int? x = some (units x) := by
  obtain ⟨n, isInt, -⟩ := (nat?_isSome_iff x).1 whole
  rw [units, isInt, Option.getD_some]

theorem Whole.units_nonneg {x : Float} (whole : (nat? x).isSome) : 0 ≤ units x := by
  obtain ⟨n, isInt, nonneg⟩ := (nat?_isSome_iff x).1 whole
  rwa [units, isInt, Option.getD_some]

theorem Binary64.Exact.units_eq {x : Float} {n : Int} (exact : Exact x n) : Whole.units x = n := by
  rw [Whole.units, exact.whole, Option.getD_some]

theorem Binary64.Exact.units {x : Float} {n : Int} (exact : Exact x n) :
    Exact x (Whole.units x) :=
  exact.units_eq.symm ▸ exact

def Coin.units (c : Coin) : Int := Whole.units c.amount

/-- The amounts of some coins together. -/
def worth (coins : List (Coin × τ)) : Int := (coins.map (·.1.units)).sum

@[simp] theorem worth_nil : worth ([] : List (Coin × τ)) = 0 := rfl

@[simp] theorem worth_cons (c : Coin × τ) (coins : List (Coin × τ)) :
    worth (c :: coins) = c.1.units + worth coins := rfl

@[simp] theorem worth_append (first second : List (Coin × τ)) :
    worth (first ++ second) = worth first + worth second := by
  simp [worth]

theorem worth_perm {first second : List (Coin × τ)} (perm : first ~ second) :
    worth first = worth second :=
  (perm.map _).sum_eq

/-! ## Coins -/

/-- Whole amounts, none of them negative, that can be summed one by one. -/
structure CountedCoins (coins : List (Coin × τ)) : Prop where
  whole : ∀ c ∈ coins, (Whole.nat? c.1.amount).isSome
  total : worth coins ≤ lastExact

theorem Coin.units_nonneg {c : Coin} (whole : (Whole.nat? c.amount).isSome) : 0 ≤ c.units :=
  Whole.units_nonneg whole

theorem worth_nonneg {coins : List (Coin × τ)}
    (whole : ∀ c ∈ coins, (Whole.nat? c.1.amount).isSome) : 0 ≤ worth coins := by
  apply List.sum_nonneg
  intro n listed
  obtain ⟨c, inside, rfl⟩ := List.mem_map.1 listed
  exact Coin.units_nonneg (whole c inside)

/-- Coins that can be added, one after the other, to a sum of `n`. -/
structure Addable (n : Int) (coins : List (Coin × τ)) : Prop where
  nonneg : 0 ≤ n
  whole : ∀ c ∈ coins, (Whole.nat? c.1.amount).isSome
  small : n + worth coins ≤ lastExact

namespace Addable

variable {n : Int} {c : Coin × τ} {coins : List (Coin × τ)}

theorem skip (addable : Addable n (c :: coins)) : Addable n coins := by
  obtain ⟨head, others⟩ := List.forall_mem_cons.1 addable.whole
  have units := Coin.units_nonneg head
  have small := addable.small
  rw [worth_cons] at small
  exact ⟨addable.nonneg, others, by omega⟩

theorem take (addable : Addable n (c :: coins)) : Addable (n + c.1.units) coins := by
  have units := Coin.units_nonneg (addable.whole c List.mem_cons_self)
  have nonneg := addable.nonneg
  have small := addable.small
  rw [worth_cons] at small
  exact ⟨by omega, addable.skip.whole, by omega⟩

theorem sublist {fewer : List (Coin × τ)} (addable : Addable n coins) (among : fewer <+ coins) :
    Addable n fewer := by
  have whole : ∀ c ∈ fewer, (Whole.nat? c.1.amount).isSome := by
    intro c inside
    exact addable.whole c (among.subset inside)
  have le : worth fewer ≤ worth coins := by
    apply (among.map (·.1.units)).sum_le_sum
    intro n listed
    obtain ⟨c, inside, rfl⟩ := List.mem_map.1 listed
    exact Coin.units_nonneg (addable.whole c inside)
  have small := addable.small
  exact ⟨addable.nonneg, whole, by omega⟩

theorem head (addable : Addable n (c :: coins)) : Exact c.1.amount c.1.units := by
  have whole := addable.whole c List.mem_cons_self
  have units := Coin.units_nonneg whole
  have others := worth_nonneg addable.skip.whole
  have nonneg := addable.nonneg
  have small := addable.take.small
  exact ⟨Whole.int?_eq_units whole, by omega⟩

theorem add (addable : Addable n (c :: coins)) {total : Float} (exact : Exact total n) :
    Exact (total + c.1.amount) (n + c.1.units) := by
  have nonneg := addable.take.nonneg
  have others := worth_nonneg addable.skip.whole
  have small := addable.take.small
  exact exact.add addable.head (by omega)

/-- A coin that was added can be taken out again. -/
theorem back (addable : Addable n (c :: coins)) {total : Float} (exact : Exact total n) :
    Exact (total + c.1.amount - c.1.amount) n := by
  have nonneg := addable.nonneg
  have others := worth_nonneg addable.skip.whole
  have small := addable.skip.small
  have difference := (addable.add exact).sub addable.head (by omega)
  rwa [add_sub_cancel_right] at difference

/-- Sums from the left are exact. -/
theorem exact_foldl (addable : Addable n coins) {total : Float} (exact : Exact total n) :
    Exact ((coins.map (·.1.amount)).foldl (· + ·) total) (n + worth coins) := by
  induction coins generalizing total n with
  | nil => simpa using exact
  | cons c coins ih =>
      have sum := ih addable.take (addable.add exact)
      rw [add_assoc] at sum
      exact sum

end Addable

namespace CountedCoins

variable {coins chosen : List (Coin × τ)}

theorem nonneg (counted : CountedCoins coins) : 0 ≤ worth coins := worth_nonneg counted.whole

/-- Coins taken out of others. -/
theorem subperm (counted : CountedCoins coins) (among : chosen <+~ coins) :
    CountedCoins chosen ∧ worth chosen ≤ worth coins := by
  obtain ⟨same, sameCoins, sublist⟩ := among
  obtain ⟨rest, parts⟩ := sublist.exists_perm_append
  have perm : coins ~ chosen ++ rest := parts.trans (sameCoins.append_right rest)
  have whole : ∀ c ∈ chosen ++ rest, (Whole.nat? c.1.amount).isSome := by
    intro c inside
    exact counted.whole c (perm.mem_iff.2 inside)
  obtain ⟨wholeChosen, wholeRest⟩ := List.forall_mem_append.1 whole
  have others := worth_nonneg wholeRest
  have parts : worth coins = worth chosen + worth rest := by
    rw [worth_perm perm, worth_append]
  have total := counted.total
  exact ⟨⟨wholeChosen, by omega⟩, by omega⟩

/-- Tags and order do not matter. -/
theorem retag {υ : Type} {others : List (Coin × υ)} (counted : CountedCoins coins)
    (perm : others.map (·.1) ~ coins.map (·.1)) : CountedCoins others := by
  constructor
  · intro c inside
    obtain ⟨d, among, same⟩ := List.mem_map.1 (perm.mem_iff.1 (List.mem_map_of_mem inside))
    exact same ▸ counted.whole d among
  · have units := (perm.map Coin.units).sum_eq
    rw [List.map_map, List.map_map] at units
    exact units.trans_le counted.total

/-- Coins listed in another order. -/
theorem reorder {coins coins' : List Coin} (counted : CountedCoins coins.zipIdx)
    (perm : coins' ~ coins) : CountedCoins coins'.zipIdx :=
  counted.retag (by rwa [List.zipIdx_map_fst, List.zipIdx_map_fst])

theorem addable (counted : CountedCoins coins) : Addable 0 coins :=
  ⟨le_refl 0, counted.whole, by simpa using counted.total⟩

theorem exact_total (counted : CountedCoins coins) :
    Exact (Totals.of (coins.map (·.1))).amount (worth coins) := by
  have sum := counted.addable.exact_foldl exact_zero
  rwa [zero_add, ← Function.comp_def, ← List.map_map, ← Totals.of_amount] at sum

end CountedCoins

/-! ## Goals -/

/-- A goal in integers. -/
structure Due where
  target : Int
  change : Int
  deriving DecidableEq, Repr

namespace Due

/-- The total is exactly the target, or leaves at least the least change. -/
def Paid (d : Due) (total : Int) : Prop := total = d.target ∨ d.target + d.change ≤ total

instance (d : Due) (total : Int) : Decidable (d.Paid total) :=
  inferInstanceAs (Decidable (_ ∨ _))

/-- What is left to pay when some of the target is paid already. -/
def after (d : Due) (amount : Int) : Due := ⟨d.target - amount, d.change⟩

theorem paid_after (d : Due) (amount total : Int) :
    (d.after amount).Paid total ↔ d.Paid (amount + total) := by
  simp only [Paid, after]
  omega

end Due

namespace Goal

variable {g : Goal} {coins : List (Coin × τ)}

def due (g : Goal) : Due := ⟨Whole.units g.target, Whole.units g.minChange⟩

/-- Target, least change and their sum are counted one by one. -/
structure Counted (g : Goal) : Prop where
  target : Exact g.target (Whole.units g.target)
  minChange : Exact g.minChange (Whole.units g.minChange)
  least : (Whole.units g.target + Whole.units g.minChange).natAbs ≤ lastExact

namespace Counted

theorem met_iff (counted : g.Counted) {total : Float} {n : Int} (exact : Exact total n) :
    g.met total ↔ g.due.Paid n := by
  have least := counted.target.add counted.minChange counted.least
  rw [met, Due.Paid, Bool.or_eq_true, decide_eq_true_iff, exact.beq_iff counted.target,
    least.le_iff exact]
  rfl

/-- What is left after coins that do not pay. -/
theorem after (counted : g.Counted) {amount : Float} {n : Int} (exact : Exact amount n)
    (nonneg : 0 ≤ n) (short : ¬ g.due.Paid n) :
    (g.after amount).Counted ∧ (g.after amount).due = g.due.after n := by
  have target := counted.target.small
  have change := counted.minChange.small
  have least := counted.least
  simp only [Due.Paid, due, not_or, not_le] at short
  have rest : Exact (g.after amount).target (Whole.units g.target - n) :=
    counted.target.sub exact (by omega)
  refine ⟨⟨rest.units, counted.minChange, ?_⟩, ?_⟩
  · rw [rest.units_eq]
    show (Whole.units g.target - n + Whole.units g.minChange).natAbs ≤ lastExact
    omega
  · rw [due, rest.units_eq]
    rfl

/-- Coins that are chosen because they meet the goal pay for it. -/
theorem paid_of_fewest (counted : g.Counted) (coinsCounted : CountedCoins coins) {budget : Nat}
    {chosen : List (Coin × τ)} (found : g.fewest budget coins = some chosen) :
    g.due.Paid (worth chosen) := by
  obtain ⟨picked, met⟩ := fewest_eq_some found
  exact (counted.met_iff (coinsCounted.subperm picked.among).1.exact_total).1 met

/-- Coins within the budget of which no number meets the goal do not pay together. -/
theorem not_paid_of_fewest (counted : g.Counted) (coinsCounted : CountedCoins coins)
    {budget : Nat} (nonempty : coins ≠ []) (room : coins.length ≤ budget)
    (short : g.fewest budget coins = none) : ¬ g.due.Paid (worth coins) := by
  have perm := Order.largestFirst.arrange_perm coins
  have never := shortestPrefix_eq_none_iff.1 (Option.map_eq_none_iff.1 short)
  -- all the coins together are one of the prefixes that were tried
  have all := never coins.length (List.length_pos_iff.2 nonempty) room (by simp)
  rw [List.take_of_length_le (by simp)] at all
  have exact := (coinsCounted.subperm perm.subperm).1.exact_total
  rw [Totals.of_amount, List.map_map, worth_perm perm] at exact
  intro paid
  exact Bool.eq_false_iff.1 all ((counted.met_iff exact).2 paid)

end Counted

end Goal

end CoinSelection
