/-
# CoinSelection.Proofs.Total -- selections end in one of two ways

A selection gives positions, or there is none for its target; nothing else can happen as long as
the coins can be read.  For the search for a least average that is shown of the search step by step
(`MinPriority.Checked.run`), where everything else that could happen is a mishap: a search calls
itself on smaller sources only, and no mishap occurs at any level.

Coins made of transactions can be read as long as the transactions are as they were
(`TxCoin.toCoin_of_made`).
-/
import Mathlib
import CoinSelection.TxCoin
import CoinSelection.Proofs.MinPriority.Checked
import CoinSelection.Proofs.Selection

namespace CoinSelection

set_option autoImplicit false

/-! ## Coins of transactions -/

/-- The coin was made of an output of its transaction. -/
def TxCoin.Made (c : TxCoin) : Prop :=
  ∃ tx output confirmations, of? tx output confirmations = .ok c

/-- A coin that was made can be read. -/
theorem TxCoin.toCoin_of_made {c : TxCoin} (made : c.Made) : ∃ coin, c.toCoin = .ok coin := by
  obtain ⟨tx, output, confirmations, made⟩ := made
  unfold of? at made
  cases there : outputAmount tx output with
  | error fault =>
      rw [there] at made
      cases made
  | ok amount =>
      rw [there] at made
      simp only [bind, Except.bind] at made
      split at made
      · split at made
        · rename_i whole
          split at made
          · cases made
            obtain ⟨n, isInt, -⟩ := (Whole.nat?_isSome_iff _).1 whole
            simp [toCoin, valueAge, TxCoin.amount, there, isInt, bind, Except.bind, pure,
              Except.pure]
          · cases made
        · cases made
      · cases made

/-! ## Selections -/

/-- The arguments of an outermost search. -/
def Args.limits (args : Args) : MinPriority.Checked.Limits :=
  ⟨args.budget, args.minChangeAmount, args.minChangeAmount_whole⟩

open MinPriority.Checked (run level) in
/-- A search on a source in range calls itself on smaller sources only, and ends in positions or for
want of a selection for its target, as the policy does.  So a selector that accepts its target
either selects or fails for want of a selection for that target, and coins that were made of
transactions can be given to it. -/
theorem selection_total {s : Source} (inRange : s.InRange) (args : Args) (threshold : Int)
    (target : Float) :
    (∀ search,
      (∀ inner lowered residual low, low.size < s.size →
        search inner lowered residual low = run inner lowered residual low) →
      level search args.limits threshold target s = run args.limits threshold target s) ∧
    ((∃ places : List Nat,
        (run args.limits threshold target s).1 = .ok (places.map .nat) ∧
        ((Policy.minPriority threshold).run args target s).1 = .ok places) ∨
      ((run args.limits threshold target s).1 = .error (.fault (.noSelection target)) ∧
        ((Policy.minPriority threshold).run args target s).1 = .error (.noSelection target))) ∧
    (∀ (selector : Selector) (coins : List Coin) (amount : Float),
      (Whole.nat? amount).isSome →
        (∃ selection, selector.select amount coins = .ok selection) ∨
          selector.select amount coins = .error (.noSelection amount)) ∧
    (∀ made : List TxCoin, (∀ c ∈ made, c.Made) →
      ∃ coins, made.mapM TxCoin.toCoin = .ok coins) := by
  obtain ⟨coins, shown⟩ := inRange.shows
  refine ⟨?_, ?_, ?_, ?_⟩
  · intro search same
    rw [MinPriority.Checked.run_unfold]
    exact MinPriority.Checked.level_congr same
  · exact MinPriority.Checked.run_ends shown args.limits threshold target
  · intro selector coins amount whole
    exact selector.select_ends whole coins
  · intro made all
    obtain ⟨coins, read⟩ := exists_map_ok fun c inside => TxCoin.toCoin_of_made (all c inside)
    exact ⟨coins, mapM_eq_ok_iff.2 read⟩

open MinPriority.Checked (run) in
/-- A window with a place given as a number, over amounts of which one cannot be compared. -/
theorem selection_total_window :
    ∃ (s : Source) (args : Args) (made : TxCoin), s.size = 2 ∧ s.InRange ∧ made.Made ∧
      ((∃ places : List Nat,
          (run args.limits (-3) 8 s).1 = .ok (places.map .nat) ∧
          ((Policy.minPriority (-3)).run args 8 s).1 = .ok places) ∨
        ((run args.limits (-3) 8 s).1 = .error (.fault (.noSelection 8)) ∧
          ((Policy.minPriority (-3)).run args 8 s).1 = .error (.noSelection 8))) ∧
      ∃ coins, [made].mapM TxCoin.toCoin = .ok coins := by
  let args : Args := ⟨2, 0, by decide +kernel, by decide +kernel⟩
  let s : Source := .window (.collection #[⟨"plain", 5, 10⟩, ⟨"odd", 0 / 0, -7⟩])
    #[.nat 1, .real 0]
  have inRange : s.InRange := ⟨trivial, by decide +kernel⟩
  have isMade : ((TxCoin.of? ⟨"tx", #[7]⟩ 0 3).toOption).isSome := by decide +kernel
  cases made : TxCoin.of? ⟨"tx", #[7]⟩ 0 3 with
  | error fault =>
      rw [made] at isMade
      cases isMade
  | ok c =>
      have cMade : c.Made := ⟨_, _, _, made⟩
      obtain ⟨-, outcome, -, reads⟩ := selection_total inRange args (-3) 8
      exact ⟨s, args, c, rfl, inRange, cMade, outcome, reads [c] (by simpa using cMade)⟩

end CoinSelection
