/-
# CoinSelection.Proofs.GivenOrder -- the order in which coins are given

A selector puts the coins in an order of its own and chooses by what it then sees (`sequence_eq`).
So all that matters of the order in which the coins were given is what it leaves in that line
(`Policy.inLine`): the order of coins with equal keys.

The keys in line are those of the coins, sorted, and do not depend on the given order
(`Policy.units_inLine`, `Policy.valueAges_inLine`).  Where all keys differ neither do the coins
(`eq_of_perm_of_keys`).  Where amounts tie, a scan still adds up the same integers and stops at the
same place, for any goal (`Goal.shortestPrefix_congr`).
-/
import Mathlib
import CoinSelection.Proofs.MinPriority.Reach
import CoinSelection.Proofs.Selection
import CoinSelection.Proofs.StableOrder

namespace CoinSelection

open Binary64 (Exact exact_zero)
open scoped List

set_option autoImplicit false

variable {τ υ : Type}

/-- Lists of the same elements are one list if their keys come in one order and no two elements have
one key. -/
theorem eq_of_perm_of_keys {α κ : Type} {key : α → κ} {xs ys : List α} (perm : xs ~ ys)
    (distinct : (xs.map key).Nodup) (same : xs.map key = ys.map key) : xs = ys := by
  apply List.ext_getElem perm.length_eq
  intro k inX inY
  have keys : (xs.map key)[k]? = (ys.map key)[k]? := by rw [same]
  exact List.inj_on_of_nodup_map distinct (List.getElem_mem inX)
    (perm.mem_iff.2 (List.getElem_mem inY)) (by simpa [inX, inY] using keys)

/-! ## Coins in line -/

namespace Policy

variable {p : Policy} {coins coins' : List Coin}

theorem inLine_perm_inLine (p : Policy) (perm : coins ~ coins') :
    p.inLine coins ~ p.inLine coins' :=
  (p.inLine_perm coins).trans (perm.trans (p.inLine_perm coins').symm)

theorem counted_inLine (p : Policy) (counted : CountedCoins coins.zipIdx) :
    CountedCoins (p.inLine coins).zipIdx :=
  counted.reorder (p.inLine_perm coins)

/-- Amounts in line are the amounts sorted. -/
theorem units_inLine (counted : CountedCoins coins.zipIdx) (perm : coins ~ coins') :
    (minNumber.inLine coins).map Coin.units = (minNumber.inLine coins').map Coin.units := by
  have counted' : CountedCoins coins'.zipIdx := counted.reorder perm.symm
  have descending : ∀ {coins : List Coin}, CountedCoins coins.zipIdx →
      ((minNumber.inLine coins).map Coin.units).Pairwise (· ≥ ·) := by
    intro coins counted
    simpa [inLine, ordered, order?, Function.comp_def] using counted.descending
  exact ((minNumber.inLine_perm_inLine perm).map _).eq_of_pairwise' (descending counted)
    (descending counted')

theorem descending_inLine (coins : List Coin) :
    ((maxValueAge.inLine coins).map (·.valueAge)).Pairwise (· ≥ ·) := by
  have stable : Order.StablyPlaced ⟨.valueAge, true⟩ coins (Order.arrange _ coins.zipIdx) :=
    Order.stablyPlaced_arrange fun _ _ => rfl
  simp only [inLine, ordered, order?, List.pairwise_map]
  refine stable.inOrder.imp ?_
  intro a b before
  rcases before with older | ⟨notOlder, -⟩
  · simp only [Order.less, Measure.less, if_true, decide_eq_true_eq] at older
    omega
  · simpa [Order.less, Measure.less] using notOlder

/-- Value-ages in line are the value-ages sorted. -/
theorem valueAges_inLine (aged : p = maxValueAge ∨ ∃ threshold, p = minPriority threshold)
    (perm : coins ~ coins') :
    (p.inLine coins).map (·.valueAge) = (p.inLine coins').map (·.valueAge) := by
  have perm := (p.inLine_perm_inLine perm).map (·.valueAge)
  rcases aged with rfl | ⟨threshold, rfl⟩
  · exact perm.eq_of_pairwise' (descending_inLine coins) (descending_inLine coins')
  · have ascending : ∀ coins : List Coin,
        (((minPriority threshold).inLine coins).map (·.valueAge)).Pairwise (· ≤ ·) := by
      intro coins
      exact List.pairwise_map.2 (List.pairwise_map.2 (Order.ascending_arrange coins.zipIdx))
    exact perm.eq_of_pairwise' (ascending coins) (ascending coins')

end Policy

/-! ## Scans of equal amounts -/

namespace Goal

theorem met_congr (g : Goal) {x y : Float} {n : Int} (left : Exact x n) (right : Exact y n) :
    g.met x = g.met y := by
  rw [met, met, left.beq_congr right, decide_eq_decide.2 (left.le_congr right _)]

/-- The integers that are added up decide where a scan stops, whatever the goal. -/
theorem shortestPrefix_congr (g : Goal) (budget : Nat) {coins : List (Coin × τ)}
    {coins' : List (Coin × υ)} (counted : CountedCoins coins) (counted' : CountedCoins coins')
    (same : coins.map (·.1.units) = coins'.map (·.1.units)) :
    g.shortestPrefix budget 0 (coins.map (·.1.amount)) =
      g.shortestPrefix budget 0 (coins'.map (·.1.amount)) := by
  have length : coins.length = coins'.length := by simpa using congrArg List.length same
  have met : ∀ k, g.met (((coins.map (·.1.amount)).take k).foldl (· + ·) 0) =
      g.met (((coins'.map (·.1.amount)).take k).foldl (· + ·) 0) := by
    intro k
    have sum := (counted.subperm (List.take_sublist k _).subperm).1.addable.exact_foldl exact_zero
    have sum' :=
      (counted'.subperm (List.take_sublist k _).subperm).1.addable.exact_foldl exact_zero
    have worths : worth (coins.take k) = worth (coins'.take k) := by
      simp only [worth, List.map_take, same]
    rw [← worths] at sum'
    rw [← List.map_take, ← List.map_take]
    exact g.met_congr sum sum'
  apply Option.ext
  intro k
  simp only [shortestPrefix_eq_some_iff, met, List.length_map, length]

theorem units_scan (g : Goal) (budget : Nat) {coins : List (Coin × τ)} {coins' : List (Coin × υ)}
    (counted : CountedCoins coins) (counted' : CountedCoins coins')
    (same : coins.map (·.1.units) = coins'.map (·.1.units)) :
    (g.scan budget coins).map (·.map (·.1.units)) =
      (g.scan budget coins').map (·.map (·.1.units)) := by
  rw [scan, scan, g.shortestPrefix_congr budget counted counted' same]
  simp only [Option.map_map, Function.comp_def, List.map_take, same]

end Goal

/-! ## Selections -/

namespace Selector

variable {s : Selector} {target : Float} {coins coins' : List Coin}

/-- The coins that are selected, one after the other. -/
def sequence (s : Selector) (target : Float) (coins : List Coin) : Except Fault (List Coin) :=
  (s.select target coins).map (·.coins)

theorem sequence_refused (refused : ¬ (Whole.nat? target).isSome) :
    s.sequence target coins = .error (.invalidArgs (.target target)) := by
  have refused : (Whole.nat? target).isNone = true := by simpa using refused
  simp [sequence, select, refused, throw, throwThe, MonadExceptOf.throw, bind, Except.bind,
    Except.map]

/-- The choice is made among the coins in line. -/
theorem sequence_eq (whole : (Whole.nat? target).isSome) :
    s.sequence target coins =
      match s.policy.choose s.args.budget ⟨target, s.args.minChangeAmount⟩
          (s.policy.inLine coins).zipIdx with
      | some chosen => .ok (chosen.map (·.1))
      | none => .error (.noSelection target) := by
  rw [sequence, select_eq s whole, Policy.choose_retag, ← Policy.inLine]
  cases s.policy.choose s.args.budget ⟨target, s.args.minChangeAmount⟩
      (s.policy.inLine coins).zipIdx with
  | none => rfl
  | some chosen => simp [Except.map, Function.comp_def]

/-- Where the coins stand in line alike, the same ones are selected. -/
theorem sequence_of_inLine (target : Float)
    (same : s.policy.inLine coins = s.policy.inLine coins') :
    s.sequence target coins = s.sequence target coins' := by
  by_cases whole : (Whole.nat? target).isSome
  · rw [sequence_eq whole, sequence_eq whole, same]
  · rw [sequence_refused whole, sequence_refused whole]

/-- The fewest coins: their amounts do not depend on the order in which the coins are given. -/
theorem units_sequence (args : Args) (target : Float) (counted : CountedCoins coins.zipIdx)
    (perm : coins ~ coins') :
    ((⟨.minNumber, args⟩ : Selector).sequence target coins).map (·.map Coin.units) =
      ((⟨.minNumber, args⟩ : Selector).sequence target coins').map (·.map Coin.units) := by
  by_cases whole : (Whole.nat? target).isSome
  · have counted' : CountedCoins coins'.zipIdx := counted.reorder perm.symm
    have tagged : ∀ line : List Coin, line.zipIdx.map (·.1.units) = line.map Coin.units := by
      intro line
      conv_rhs => rw [← List.zipIdx_map_fst 0 line, List.map_map]
      rfl
    have scans := Goal.units_scan ⟨target, args.minChangeAmount⟩ args.budget
      (Policy.minNumber.counted_inLine counted) (Policy.minNumber.counted_inLine counted') (by
        rw [tagged, tagged]
        exact Policy.units_inLine counted perm)
    rw [sequence_eq whole, sequence_eq whole]
    simp only [Policy.choose]
    generalize Goal.scan _ _ (Policy.minNumber.inLine coins).zipIdx = found at scans ⊢
    generalize Goal.scan _ _ (Policy.minNumber.inLine coins').zipIdx = found' at scans ⊢
    cases found with
    | none =>
        cases found' with
        | none => rfl
        | some chosen' => cases scans
    | some chosen =>
        cases found' with
        | none => cases scans
        | some chosen' => simpa [Except.map, Function.comp_def] using scans
  · rw [sequence_refused whole, sequence_refused whole]

/-- The reported total is the sum of the integers. -/
theorem exact_total (counted : CountedCoins coins.zipIdx) {r : Selection}
    (found : s.select target coins = .ok r) :
    Exact r.totals.amount (r.coins.map Coin.units).sum := by
  rw [select_eq s (whole_of_select found)] at found
  split at found
  · rename_i chosen chooses
    cases found
    have among := (Policy.choose_picked chooses).among.trans
      (s.policy.ordered_perm coins.zipIdx).subperm
    have total := (counted.subperm among).1.exact_total
    show Exact _ ((chosen.map (·.1)).map Coin.units).sum
    rwa [List.map_map]
  · cases found

/-- The order in which coins are given does not matter to what is selected, as far as the keys by
which they are sorted tell them apart. -/
theorem select_given_order (perm : coins ~ coins') (counted : CountedCoins coins.zipIdx)
    (args : Args) (target : Float) :
    ((⟨.minNumber, args⟩ : Selector).sequence target coins).map (·.map Coin.units) =
        ((⟨.minNumber, args⟩ : Selector).sequence target coins').map (·.map Coin.units) ∧
      (∀ r r', (⟨.minNumber, args⟩ : Selector).select target coins = .ok r →
        (⟨.minNumber, args⟩ : Selector).select target coins' = .ok r' →
        r.coins.length = r'.coins.length ∧ r.totals.amount == r'.totals.amount) ∧
      ((coins.map Coin.units).Nodup →
        (⟨.minNumber, args⟩ : Selector).sequence target coins =
          (⟨.minNumber, args⟩ : Selector).sequence target coins') ∧
      ((coins.map (·.valueAge)).Nodup →
        ∀ p : Policy, (p = .maxValueAge ∨ ∃ threshold, p = .minPriority threshold) →
          (⟨p, args⟩ : Selector).sequence target coins =
            (⟨p, args⟩ : Selector).sequence target coins') := by
  have amounts := units_sequence args target counted perm
  refine ⟨amounts, ?_, ?_, ?_⟩
  · intro r r' found found'
    have counted' : CountedCoins coins'.zipIdx := counted.reorder perm.symm
    have same : r.coins.map Coin.units = r'.coins.map Coin.units := by
      simpa [sequence, found, found', Except.map] using amounts
    have total := exact_total counted found
    have total' := exact_total counted' found'
    rw [← same] at total'
    exact ⟨by simpa using congrArg List.length same, (total.beq_iff total').2 rfl⟩
  · intro distinct
    apply sequence_of_inLine
    have distinct := (((Policy.minNumber.inLine_perm coins).map Coin.units).nodup_iff).2 distinct
    exact eq_of_perm_of_keys (Policy.minNumber.inLine_perm_inLine perm) distinct
      (Policy.units_inLine counted perm)
  · intro distinct p aged
    apply sequence_of_inLine
    have distinct := (((p.inLine_perm coins).map (·.valueAge)).nodup_iff).2 distinct
    exact eq_of_perm_of_keys (p.inLine_perm_inLine perm) distinct
      (Policy.valueAges_inLine aged perm)

/-- Two coins of one amount change places: the other one is selected in front, and where value-ages
decide nothing changes.  Without one of the two the amounts decide as well. -/
theorem select_given_order_tie :
    ∃ (args : Args) (coins coins' : List Coin),
      coins ~ coins' ∧ (coins.map (·.valueAge)).Nodup ∧
      (((⟨.minNumber, args⟩ : Selector).sequence 8 coins).map (·.map (·.label))).toOption =
        some ["a", "b"] ∧
      (((⟨.minNumber, args⟩ : Selector).sequence 8 coins').map (·.map (·.label))).toOption =
        some ["b", "a"] ∧
      ((⟨.minNumber, args⟩ : Selector).sequence 8 coins).map (·.map Coin.units) =
        ((⟨.minNumber, args⟩ : Selector).sequence 8 coins').map (·.map Coin.units) ∧
      (((⟨.minPriority 7, args⟩ : Selector).sequence 8 coins).map (·.map (·.label))).toOption =
        some ["a", "c"] ∧
      (⟨.minPriority 7, args⟩ : Selector).sequence 8 coins =
        (⟨.minPriority 7, args⟩ : Selector).sequence 8 coins' ∧
      (coins.tail.map Coin.units).Nodup ∧ coins.tail ~ coins'.dropLast ∧
      (⟨.minNumber, args⟩ : Selector).sequence 8 coins.tail =
        (⟨.minNumber, args⟩ : Selector).sequence 8 coins'.dropLast := by
  let args : Args := ⟨3, 0, by decide +kernel, by decide +kernel⟩
  let coins : List Coin := [⟨"a", 5, 10⟩, ⟨"b", 5, 2⟩, ⟨"c", 3, 7⟩]
  let coins' : List Coin := [⟨"c", 3, 7⟩, ⟨"b", 5, 2⟩, ⟨"a", 5, 10⟩]
  have perm : coins ~ coins' := (List.reverse_perm coins).symm
  have counted : CountedCoins coins.zipIdx := ⟨by decide +kernel, by decide +kernel⟩
  have ages : (coins.map (·.valueAge)).Nodup := by decide
  have perm' : coins.tail ~ coins'.dropLast := (List.reverse_perm coins.tail).symm
  have counted' : CountedCoins coins.tail.zipIdx := ⟨by decide +kernel, by decide +kernel⟩
  have amounts' : (coins.tail.map Coin.units).Nodup := by decide +kernel
  obtain ⟨amounts, -, -, aged⟩ := select_given_order perm counted args 8
  obtain ⟨-, -, paid, -⟩ := select_given_order perm' counted' args 8
  exact ⟨args, coins, coins', perm, ages, by decide +kernel, by decide +kernel, amounts,
    by decide +kernel, aged ages (.minPriority 7) (.inr ⟨7, rfl⟩), amounts', perm', paid amounts'⟩

end Selector

end CoinSelection
