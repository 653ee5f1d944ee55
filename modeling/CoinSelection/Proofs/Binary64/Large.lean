/-
# CoinSelection.Proofs.Binary64.Large -- large integers that are added to small ones

A binary64 number that is whole can be any size.  Added to an integer that is counted one by one, or
taken from one, it gives an exact result whenever the result is counted one by one again
(`Exact.add_whole`, `Exact.sub_whole`): nothing is rounded on the way, because the sum is formed at
the lower of the two exponents and that is not above zero.
-/
import Mathlib
import CoinSelection.Proofs.Binary64.Exact

namespace CoinSelection.Binary64

open Float.Model (Format UnpackedFloat)
open Float.Model.UnpackedFloat

set_option autoImplicit false

/-- `u` is an integer of any size: brought down to an exponent `-k`, it is that integer with `k`
zeros behind it. -/
inductive Spells : UnpackedFloat → Int → Prop where
  | zero (s : Sign) : Spells (.zero s) 0
  | finite (s : Sign) (m a : Nat) (e : Int) (pos : 0 < m)
      (value : ∀ k : Nat, -(k : Int) ≤ e → m * 2 ^ (e + k).toNat = a * 2 ^ k) :
      Spells (.finite s m e pos) (s.apply a)

theorem spells_of_int? {x : Float} {n : Int} (whole : Whole.int? x = some n) :
    Spells x.toModel.unpack n := by
  unfold Whole.int? at whole
  split at whole
  · rename_i s unpacked
    cases whole
    rw [unpacked]
    exact .zero s
  · rename_i s m e pos unpacked
    rw [unpacked]
    split at whole
    · rename_i large
      cases whole
      refine .finite s m _ e pos ?_
      intro k _
      rw [Nat.shiftLeft_eq, mul_assoc, ← pow_add]
      congr 2
      omega
    · split at whole
      · rename_i fractional divides
        cases whole
        refine .finite s m _ e pos ?_
        intro k reaches
        rw [Nat.shiftLeft_eq] at divides
        conv_lhs => rw [← divides]
        rw [mul_assoc, ← pow_add]
        congr 2
        omega
      · cases whole
  · cases whole
  · cases whole

/-- An integer counted one by one and any other integer, at the lower of their exponents. -/
theorem commonExponent_spelled {a m b : Nat} {e : Int} (fits : a.log2 ≤ 52)
    (value : ∀ k : Nat, -(k : Int) ≤ e → m * 2 ^ (e + k).toNat = b * 2 ^ k) :
    ∃ k : Nat, min ((a.log2 : Int) - 52) e = -k ∧
      (decreaseExponent (a * 2 ^ (52 - a.log2)) (a.log2 - 52) (-k)).1 = a * 2 ^ k ∧
      (decreaseExponent m e (-k)).1 = b * 2 ^ k := by
  obtain ⟨k, lower⟩ : ∃ k : Nat, min ((a.log2 : Int) - 52) e = -k :=
    ⟨(-min ((a.log2 : Int) - 52) e).toNat, by omega⟩
  refine ⟨k, lower, decreaseExponent_filled (by omega) fits, ?_⟩
  rw [← value k (by omega)]
  simp only [decreaseExponent, Nat.shiftLeft_eq, sub_neg_eq_add]

theorem reads_add_spelled {s s' : Sign} {a b m : Nat} {e : Int} {pos : 0 < m}
    (smallA : a < 2 ^ 53) (filled : 0 < a * 2 ^ (52 - a.log2))
    (value : ∀ k : Nat, -(k : Int) ≤ e → m * 2 ^ (e + k).toNat = b * 2 ^ k)
    (small : (s.apply a + s'.apply b).natAbs < 2 ^ 53) :
    Reads (UnpackedFloat.add Format.binary64
      (.finite s (a * 2 ^ (52 - a.log2)) (a.log2 - 52) filled) (.finite s' m e pos))
      (s.apply a + s'.apply b) := by
  obtain ⟨k, lower, first, second⟩ :=
    commonExponent_spelled (log2_le_of_filled smallA filled) value
  simp only [UnpackedFloat.add, lower, first, second, apply_mul_two_pow, ← add_mul]
  exact reads_normalize k .positive small

theorem reads_sub_spelled {s s' : Sign} {a b m : Nat} {e : Int} {pos : 0 < m}
    (smallA : a < 2 ^ 53) (filled : 0 < a * 2 ^ (52 - a.log2))
    (value : ∀ k : Nat, -(k : Int) ≤ e → m * 2 ^ (e + k).toNat = b * 2 ^ k)
    (small : (s.apply a - s'.apply b).natAbs < 2 ^ 53) :
    Reads (UnpackedFloat.sub Format.binary64
      (.finite s (a * 2 ^ (52 - a.log2)) (a.log2 - 52) filled) (.finite s' m e pos))
      (s.apply a - s'.apply b) := by
  obtain ⟨k, lower, first, second⟩ :=
    commonExponent_spelled (log2_le_of_filled smallA filled) value
  simp only [UnpackedFloat.sub, lower, first, second, apply_mul_two_pow, ← sub_mul]
  exact reads_normalize k .positive small

namespace Exact

variable {x y : Float} {m n : Int}

theorem add_whole (left : Exact x m) (right : Whole.int? y = some n)
    (small : (m + n).natAbs ≤ lastExact) : Exact (x + y) (m + n) := by
  by_cases counted : n.natAbs ≤ lastExact
  · exact left.add ⟨right, counted⟩ small
  -- a large number, so the other is not zero
  · refine ⟨int?_of_reads (reads_unpack_pack ?_), small⟩
    have reads := left.reads
    have spells := spells_of_int? right
    show Reads (UnpackedFloat.add Format.binary64 x.toModel.unpack y.toModel.unpack) _
    generalize x.toModel.unpack = u at reads
    generalize y.toModel.unpack = v at spells
    cases reads with
    | zero s =>
        rw [zero_add] at small
        exact absurd small counted
    | finite s a smallA filled =>
        cases spells with
        | zero s' => exact absurd (Nat.zero_le _) counted
        | finite s' m b e pos value =>
            exact reads_add_spelled smallA filled value (natAbs_lt_of_le small)

theorem sub_whole (left : Exact x m) (right : Whole.int? y = some n)
    (small : (m - n).natAbs ≤ lastExact) : Exact (x - y) (m - n) := by
  by_cases counted : n.natAbs ≤ lastExact
  · exact left.sub ⟨right, counted⟩ small
  · refine ⟨int?_of_reads (reads_unpack_pack ?_), small⟩
    have reads := left.reads
    have spells := spells_of_int? right
    show Reads (UnpackedFloat.sub Format.binary64 x.toModel.unpack y.toModel.unpack) _
    generalize x.toModel.unpack = u at reads
    generalize y.toModel.unpack = v at spells
    cases reads with
    | zero s =>
        rw [zero_sub, Int.natAbs_neg] at small
        exact absurd small counted
    | finite s a smallA filled =>
        cases spells with
        | zero s' => exact absurd (Nat.zero_le _) counted
        | finite s' m b e pos value =>
            exact reads_sub_spelled smallA filled value (natAbs_lt_of_le small)

end Exact

end CoinSelection.Binary64
