/-
# CoinSelection.Proofs.Binary64.Ordered -- all numbers but NaN in one line

Two binary64 numbers are compared by their signs, then by their exponents, then by their mantissas.
So the numbers that are not NaN stand in one line, at their `rank`, with both zeros at one place and
the infinities at the ends, and `<` is the order of that line (`lt_iff_rank_lt`).
-/
import Mathlib

namespace CoinSelection.Binary64

open Float.Model (UnpackedFloat)

set_option autoImplicit false

/-- Places in the line: by sign, then by exponent, then by mantissa. -/
abbrev Rank := ℤ ×ₗ ℤ ×ₗ ℤ

def unpackedRank : UnpackedFloat → Rank
  | .infinity .negative => toLex (-2, toLex (0, 0))
  | .finite .negative m e _ => toLex (-1, toLex (-e, -m))
  | .zero _ | .notANumber => toLex (0, toLex (0, 0))
  | .finite .positive m e _ => toLex (1, toLex (e, m))
  | .infinity .positive => toLex (2, toLex (0, 0))

def rank (x : Float) : Rank := unpackedRank x.toModel.unpack

/-- Of two places on one side of zero the exponents decide, then the mantissas. -/
theorem lt_iff_magnitude (side : ℤ) (x y : ℤ ×ₗ ℤ) :
    (toLex (side, x) : Rank) < toLex (side, y) ↔ x < y := by
  simp [Prod.Lex.toLex_lt_toLex]

theorem magnitude_lt_iff (e e' : ℤ) (m m' : ℕ) :
    (compare e e').then (compare m m') = .lt ↔ toLex (e, (m : ℤ)) < toLex (e', (m' : ℤ)) := by
  rw [Ordering.then_eq_lt, Int.compare_eq_lt, Int.compare_eq_eq, Nat.compare_eq_lt,
    Prod.Lex.toLex_lt_toLex, Nat.cast_lt]

/-- Below zero the larger magnitude comes first. -/
theorem magnitude_gt_iff (e e' : ℤ) (m m' : ℕ) :
    (compare e e').then (compare m m') = .gt ↔ toLex (-e, -(m : ℤ)) < toLex (-e', -(m' : ℤ)) := by
  rw [Ordering.then_eq_gt, Int.compare_eq_gt, Int.compare_eq_eq, Nat.compare_eq_gt,
    Prod.Lex.toLex_lt_toLex, neg_lt_neg_iff, neg_inj, neg_lt_neg_iff, Nat.cast_lt]

theorem compare_eq_lt_iff {u v : UnpackedFloat} (left : u.isNaN = false) (right : v.isNaN = false) :
    u.compare v = some .lt ↔ unpackedRank u < unpackedRank v := by
  cases u with
  | notANumber => cases left
  | infinity s =>
      cases v with
      | notANumber => cases right
      | infinity s' => cases s <;> cases s' <;> decide
      | zero s' => cases s <;> simp [UnpackedFloat.compare, unpackedRank, Prod.Lex.toLex_lt_toLex]
      | finite s' m' e' pos' =>
          cases s <;> cases s' <;>
            simp [UnpackedFloat.compare, unpackedRank, Prod.Lex.toLex_lt_toLex]
  | zero s =>
      cases v with
      | notANumber => cases right
      | infinity s' =>
          cases s' <;> simp [UnpackedFloat.compare, unpackedRank, Prod.Lex.toLex_lt_toLex]
      | zero s' => simp [UnpackedFloat.compare, unpackedRank]
      | finite s' m' e' pos' =>
          cases s' <;> simp [UnpackedFloat.compare, unpackedRank, Prod.Lex.toLex_lt_toLex]
  | finite s m e pos =>
      cases v with
      | notANumber => cases right
      | infinity s' =>
          cases s <;> cases s' <;>
            simp [UnpackedFloat.compare, unpackedRank, Prod.Lex.toLex_lt_toLex]
      | zero s' => cases s <;> simp [UnpackedFloat.compare, unpackedRank, Prod.Lex.toLex_lt_toLex]
      | finite s' m' e' pos' =>
          cases s <;> cases s' <;> simp only [UnpackedFloat.compare, unpackedRank, Option.some.injEq]
          · rw [Ordering.swap_eq_lt, magnitude_gt_iff, lt_iff_magnitude]
          · simp [Prod.Lex.toLex_lt_toLex]
          · simp [Prod.Lex.toLex_lt_toLex]
          · rw [magnitude_lt_iff, lt_iff_magnitude]

/-- Numbers that are not NaN are compared by their places in the line. -/
theorem lt_iff_rank_lt {x y : Float} (left : x.isNaN = false) (right : y.isNaN = false) :
    x < y ↔ rank x < rank y := by
  have model : x < y ↔ (x.toModel.unpack.compare y.toModel.unpack == some .lt) = true :=
    decide_eq_true_iff
  rw [model, beq_iff_eq]
  exact compare_eq_lt_iff left right

end CoinSelection.Binary64
