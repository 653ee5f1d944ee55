/-
# CoinSelection.Proofs.Binary64.Value -- the exact value of a number

A binary64 number that is neither infinite nor NaN is a rational number, `± m · 2 ^ e`.  The integer
that is read from a number is exactly that value, however large, and there is none when the value is
no integer (`int?_eq_some_iff`).
-/
import Mathlib
import CoinSelection.Proofs.Binary64.Exact

namespace CoinSelection.Binary64

open Float.Model (UnpackedFloat)
open Float.Model.UnpackedFloat

set_option autoImplicit false

/-- The exact value of a number; infinities and NaN have none. -/
def value? (x : Float) : Option ℚ :=
  match x.toModel.unpack with
  | .zero _ => some 0
  | .finite s m e _ => some ((s.apply m : Int) * 2 ^ e)
  | .infinity _ | .notANumber => none

theorem two_pow_dvd_apply_iff (s : Sign) (m k : Nat) :
    (2 : Int) ^ k ∣ s.apply (m : Int) ↔ 2 ^ k ∣ m := by
  cases s
  · show (2 : Int) ^ k ∣ -(m : Int) ↔ 2 ^ k ∣ m
    rw [Int.dvd_neg]
    exact_mod_cast Iff.rfl
  · show (2 : Int) ^ k ∣ (m : Int) ↔ 2 ^ k ∣ m
    exact_mod_cast Iff.rfl

/-- An integer over a power of two, when that is an integer again. -/
theorem mul_zpow_neg_eq_iff (a n : Int) (k : Nat) :
    (a : ℚ) * 2 ^ (-(k : Int)) = n ↔ a = n * 2 ^ k := by
  have positive : (2 : ℚ) ^ k ≠ 0 := by positivity
  rw [zpow_neg, zpow_natCast, ← div_eq_mul_inv, div_eq_iff positive]
  exact_mod_cast Iff.rfl

theorem int?_eq_some_iff (x : Float) (n : Int) :
    Whole.int? x = some n ↔ value? x = some (n : ℚ) := by
  unfold Whole.int? value?
  generalize x.toModel.unpack = u
  cases u with
  | zero s =>
      rw [Option.some.injEq, Option.some.injEq]
      exact_mod_cast Iff.rfl
  | infinity s => simp
  | notANumber => simp
  | finite s m e pos =>
      dsimp only
      rw [Option.some.injEq]
      by_cases large : 0 ≤ e
      · obtain ⟨k, rfl⟩ := Int.eq_ofNat_of_zero_le large
        rw [if_pos large, Option.some.injEq, Int.toNat_natCast, Nat.shiftLeft_eq,
          apply_mul_two_pow, zpow_natCast]
        exact_mod_cast Iff.rfl
      · obtain ⟨k, rfl⟩ : ∃ k : Nat, e = -k := ⟨(-e).toNat, by omega⟩
        rw [if_neg large, neg_neg, Int.toNat_natCast, Nat.shiftRight_eq_div_pow,
          Nat.shiftLeft_eq, mul_zpow_neg_eq_iff]
        by_cases divides : 2 ^ k ∣ m
        · obtain ⟨a, rfl⟩ := divides
          have positive : (2 : Int) ^ k ≠ 0 := by positivity
          rw [Nat.mul_div_cancel_left a (by positivity), if_pos (mul_comm a _), Option.some.injEq,
            mul_comm, apply_mul_two_pow]
          exact (mul_left_inj' positive).symm
        · rw [if_neg fun exact => divides (Dvd.intro_left _ exact)]
          constructor
          · intro none
            cases none
          · intro exact
            exact absurd ((two_pow_dvd_apply_iff s m k).1 (Dvd.intro_left n exact.symm)) divides

end CoinSelection.Binary64
