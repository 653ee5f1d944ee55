/-
# CoinSelection.Proofs.Binary64.Exact -- where binary64 counts one by one

Up to `2 ^ 53 - 1` in size every integer is a binary64 number.  `Exact x n` says that `x` is such
an integer.  Sums and differences of such numbers are exact as long as they stay among them
(`Exact.add`, `Exact.sub`), and comparisons are those of the integers (`Exact.lt_iff`,
`Exact.le_iff`, `Exact.beq_iff`), also with a number that is none of them (`Exact.le_congr`,
`Exact.beq_congr`).
-/
import Mathlib
import CoinSelection.Proofs.Binary64.Reads

namespace CoinSelection.Binary64

open Float.Model (Format UnpackedFloat)
open Float.Model.UnpackedFloat

set_option autoImplicit false

/-- The last integer up to which binary64 has every one. -/
def lastExact : Nat := 2 ^ 53 - 1

/-- The number is the integer, and it is one of those that are counted one by one. -/
structure Exact (x : Float) (n : Int) : Prop where
  whole : Whole.int? x = some n
  small : n.natAbs ≤ lastExact

theorem natAbs_lt_of_le {n : Int} (small : n.natAbs ≤ lastExact) : n.natAbs < 2 ^ 53 := by
  simp only [lastExact] at small
  omega

theorem Exact.reads {x : Float} {n : Int} (exact : Exact x n) : Reads x.toModel.unpack n :=
  reads_of_int? exact.whole (natAbs_lt_of_le exact.small)

theorem exact_zero : Exact 0 0 := ⟨by decide +kernel, by decide⟩

/-! ## Sums -/

/-- A form brought down to a lower exponent. -/
theorem decreaseExponent_filled {a : Nat} {k : Nat} (below : 52 - a.log2 ≤ k) (fits : a.log2 ≤ 52) :
    (decreaseExponent (a * 2 ^ (52 - a.log2)) (a.log2 - 52) (-k)).1 = a * 2 ^ k := by
  simp only [decreaseExponent, Nat.shiftLeft_eq,
    show ((a.log2 : Int) - 52 - -k).toNat = k - (52 - a.log2) by omega, mul_assoc, ← pow_add]
  congr 2
  omega

theorem apply_mul_two_pow (s : Sign) (a k : Nat) :
    s.apply ((a * 2 ^ k : Nat) : Int) = s.apply (a : Int) * 2 ^ k := by
  cases s <;> simp [Sign.apply]

/-- Two forms brought down to the lower of their exponents: the integers, with the same number of
zeros behind them. -/
theorem commonExponent {a b : Nat} (fitsA : a.log2 ≤ 52) (fitsB : b.log2 ≤ 52) :
    ∃ k : Nat, min ((a.log2 : Int) - 52) (b.log2 - 52) = -k ∧
      (decreaseExponent (a * 2 ^ (52 - a.log2)) (a.log2 - 52) (-k)).1 = a * 2 ^ k ∧
      (decreaseExponent (b * 2 ^ (52 - b.log2)) (b.log2 - 52) (-k)).1 = b * 2 ^ k := by
  refine ⟨max (52 - a.log2) (52 - b.log2), by omega, ?_, ?_⟩
  · exact decreaseExponent_filled (le_max_left _ _) fitsA
  · exact decreaseExponent_filled (le_max_right _ _) fitsB

theorem log2_le_of_filled {a : Nat} (small : a < 2 ^ 53) (filled : 0 < a * 2 ^ (52 - a.log2)) :
    a.log2 ≤ 52 := by
  have := (Nat.log2_lt (Nat.pos_of_mul_pos_right filled).ne').2 small
  omega

theorem reads_add {u v : UnpackedFloat} {m n : Int} (left : Reads u m) (right : Reads v n)
    (small : (m + n).natAbs < 2 ^ 53) :
    Reads (UnpackedFloat.add Format.binary64 u v) (m + n) := by
  cases left with
  | zero s =>
      cases right with
      | zero s' =>
          simp only [UnpackedFloat.add]
          split <;> exact .zero _
      | finite s' b smallB filled => simpa [UnpackedFloat.add] using Reads.finite s' b smallB filled
  | finite s a smallA filled =>
      cases right with
      | zero s' => simpa [UnpackedFloat.add] using Reads.finite s a smallA filled
      | finite s' b smallB filled' =>
          obtain ⟨k, lower, first, second⟩ :=
            commonExponent (log2_le_of_filled smallA filled) (log2_le_of_filled smallB filled')
          simp only [UnpackedFloat.add, lower, first, second, apply_mul_two_pow, ← add_mul]
          exact reads_normalize k .positive small

theorem reads_sub {u v : UnpackedFloat} {m n : Int} (left : Reads u m) (right : Reads v n)
    (small : (m - n).natAbs < 2 ^ 53) :
    Reads (UnpackedFloat.sub Format.binary64 u v) (m - n) := by
  cases left with
  | zero s =>
      cases right with
      | zero s' =>
          simp only [UnpackedFloat.sub]
          split <;> exact .zero _
      | finite s' b smallB filled =>
          have negated : (0 : Int) - s'.apply b = (-s').apply b := by
            cases s' with
            | negative => show (0 : Int) - -(b : Int) = b; omega
            | positive => show (0 : Int) - (b : Int) = -(b : Int); omega
          rw [negated]
          exact .finite (-s') b smallB filled
  | finite s a smallA filled =>
      cases right with
      | zero s' => simpa [UnpackedFloat.sub] using Reads.finite s a smallA filled
      | finite s' b smallB filled' =>
          obtain ⟨k, lower, first, second⟩ :=
            commonExponent (log2_le_of_filled smallA filled) (log2_le_of_filled smallB filled')
          simp only [UnpackedFloat.sub, lower, first, second, apply_mul_two_pow, ← sub_mul]
          exact reads_normalize k .positive small

namespace Exact

variable {x y : Float} {m n : Int}

theorem add (left : Exact x m) (right : Exact y n) (small : (m + n).natAbs ≤ lastExact) :
    Exact (x + y) (m + n) :=
  ⟨int?_of_reads (reads_unpack_pack (reads_add left.reads right.reads (natAbs_lt_of_le small))),
    small⟩

theorem sub (left : Exact x m) (right : Exact y n) (small : (m - n).natAbs ≤ lastExact) :
    Exact (x - y) (m - n) :=
  ⟨int?_of_reads (reads_unpack_pack (reads_sub left.reads right.reads (natAbs_lt_of_le small))),
    small⟩

/-! ## Comparisons -/

theorem compare (left : Exact x m) (right : Exact y n) :
    x.toModel.unpack.compare y.toModel.unpack = some (Ord.compare m n) :=
  compare_of_reads left.reads right.reads

theorem lt_iff (left : Exact x m) (right : Exact y n) : x < y ↔ m < n := by
  have model : x < y ↔ (x.toModel.unpack.compare y.toModel.unpack == some .lt) = true :=
    decide_eq_true_iff
  rw [model, left.compare right, beq_iff_eq, Option.some.injEq, Int.compare_eq_lt]

theorem le_iff (left : Exact x m) (right : Exact y n) : x ≤ y ↔ m ≤ n := by
  have model : x ≤ y ↔ (x.toModel.unpack.compare y.toModel.unpack).any (·.isLE) = true :=
    decide_eq_true_iff
  rw [model, left.compare right, Option.any_some, Int.isLE_compare]

theorem beq_iff (left : Exact x m) (right : Exact y n) : x == y ↔ m = n := by
  show (x.toModel.unpack.compare y.toModel.unpack == some .eq) = true ↔ m = n
  rw [left.compare right, beq_iff_eq, Option.some.injEq, Int.compare_eq_eq]

theorem isNaN (exact : Exact x m) : x.isNaN = false := by
  have form := exact.reads
  show x.toModel.unpack.isNaN = false
  generalize x.toModel.unpack = u at form
  cases form <;> rfl

/-! ## One integer in two numbers -/

/-- Two numbers that are one integer are both at most a number, or neither is. -/
theorem le_congr (left : Exact x m) (right : Exact y m) (z : Float) : z ≤ x ↔ z ≤ y := by
  have model : ∀ w : Float,
      z ≤ w ↔ (z.toModel.unpack.compare w.toModel.unpack).any (·.isLE) = true :=
    fun _ => decide_eq_true_iff
  rw [model, model, (compare_congr left.reads right.reads _).2]

theorem beq_congr (left : Exact x m) (right : Exact y m) (z : Float) : (x == z) = (y == z) := by
  show (x.toModel.unpack.compare z.toModel.unpack == some .eq) =
    (y.toModel.unpack.compare z.toModel.unpack == some .eq)
  rw [(compare_congr left.reads right.reads _).1]

end Exact

end CoinSelection.Binary64
