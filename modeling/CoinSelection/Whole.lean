/-
# CoinSelection.Whole -- which binary64 numbers are whole

Amounts, targets, budgets and positions all arrive as binary64 numbers, and each is tested for
being an integer before it is used as one.  The test is exact: a number is `± m · 2 ^ e`, and it
is whole when the last `-e` binary digits of `m` are zero.  Both zeros are the integer zero;
infinities and NaN are not whole.
-/

namespace CoinSelection.Whole

set_option autoImplicit false

/-- The integer that a number is, if it is one. -/
def int? (x : Float) : Option Int :=
  match x.toModel.unpack with
  | .zero _ => some 0
  | .finite s m e _ =>
      if 0 ≤ e then some (s.apply (m <<< e.toNat : Nat))
      else if m >>> (-e).toNat <<< (-e).toNat = m then some (s.apply (m >>> (-e).toNat : Nat))
      else none
  | .infinity _ | .notANumber => none

/-- The natural number that a number is, if it is one. -/
def nat? (x : Float) : Option Nat :=
  match int? x with
  | some (.ofNat n) => some n
  | _ => none

/-- The whole part of the size of a finite number; zero for the others. -/
def floorAbs (x : Float) : Nat :=
  match x.toModel.unpack with
  | .finite _ m e _ => if 0 ≤ e then m <<< e.toNat else m >>> (-e).toNat
  | .zero _ | .infinity _ | .notANumber => 0

/-- A whole number is not negative exactly when it is a natural number. -/
theorem nat?_isSome_iff (x : Float) : (nat? x).isSome ↔ ∃ n : Int, int? x = some n ∧ 0 ≤ n := by
  unfold nat?
  split
  next n h => simp [h]
  next h =>
    simp only [Option.isSome_none, Bool.false_eq_true, false_iff, not_exists, not_and, Int.not_le]
    intro n hn
    cases n with
    | ofNat n => exact absurd hn (h n)
    | negSucc n => exact Int.negSucc_lt_zero n

end CoinSelection.Whole
