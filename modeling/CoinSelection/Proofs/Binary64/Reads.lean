/-
# CoinSelection.Proofs.Binary64.Reads -- integers in unpacked form

A binary64 number unpacks to a sign, a mantissa and an exponent.  An integer `a` with
`0 < a < 2 ^ 53` has exactly one such form, in which the mantissa fills all 53 bits; zero has two,
one for each sign.  `Reads u n` says that `u` is the form of the integer `n`.

* `reads_of_int?`, `int?_of_reads`: the forms are those of the numbers that `Whole.int?` finds
  whole, as long as they are below `2 ^ 53` in size;
* `reads_normalize`: rounding an integer below `2 ^ 53`, however it is scaled, gives its form;
* `reads_unpack_pack`: packing keeps the form;
* `compare_of_reads`: forms compare as their integers do; `compare_congr`: and so two forms of one
  integer compare alike with whatever else.
-/
import Mathlib
import CoinSelection.Whole

namespace CoinSelection.Binary64

open Float.Model (Format UnpackedFloat totalExponent)
open Float.Model.UnpackedFloat

set_option autoImplicit false

/-- `u` is the form in which binary64 keeps the integer. -/
inductive Reads : UnpackedFloat → Int → Prop where
  | zero (s : Sign) : Reads (.zero s) 0
  | finite (s : Sign) (a : Nat) (small : a < 2 ^ 53) (filled : 0 < a * 2 ^ (52 - a.log2)) :
      Reads (.finite s (a * 2 ^ (52 - a.log2)) (a.log2 - 52) filled) (s.apply a)

/-! ## Forms of packed numbers -/

theorem minExponent_eq : Format.binary64.minExponent = -1074 := by decide

theorem exponentBias_eq : Format.binary64.exponentBias = 1023 := by decide

/-- What unpacking can give: a mantissa below `2 ^ 53`, which is full unless the exponent is the
least. -/
theorem unpack_canonical {b : BitVec Format.binary64.numBits} {s : Sign} {m : Nat} {e : Int}
    {pos : 0 < m} (unpacked : UnpackedFloat.unpack Format.binary64 b = .finite s m e pos) :
    m < 2 ^ 53 ∧ (2 ^ 52 ≤ m ∨ e = -1074) := by
  simp only [UnpackedFloat.unpack] at unpacked
  split at unpacked
  · split at unpacked <;> cases unpacked
  · split at unpacked
    · split at unpacked
      · cases unpacked
      · rename_i zeroExponent _
        injection unpacked with _ mantissa exponent
        have bound := (@unpackMantissa Format.binary64 b).isLt
        rw [mantissa] at bound
        refine ⟨lt_trans bound (by decide), Or.inr ?_⟩
        rw [← exponent, zeroExponent, exponentBias_eq]
        rfl
    · injection unpacked with _ mantissa _
      have bound := (1#1 ++ @unpackMantissa Format.binary64 b).isLt
      have implicit : 2 ^ 52 ≤ (1#1 ++ @unpackMantissa Format.binary64 b).toNat := by
        rw [BitVec.toNat_append]
        exact Nat.left_le_or
      rw [mantissa] at bound implicit
      exact ⟨bound, Or.inl implicit⟩

/-- Where the mantissa of a form stands: it fills 53 bits. -/
theorem filled_bounds {a : Nat} (pos : 0 < a) (small : a < 2 ^ 53) :
    2 ^ 52 ≤ a * 2 ^ (52 - a.log2) ∧ a * 2 ^ (52 - a.log2) < 2 ^ 53 := by
  have below : a.log2 < 53 := (Nat.log2_lt pos.ne').2 small
  have least := Nat.mul_le_mul_right (2 ^ (52 - a.log2)) (Nat.log2_self_le pos.ne')
  have most :=
    Nat.mul_lt_mul_of_pos_right (Nat.lt_log2_self (n := a)) (Nat.two_pow_pos (52 - a.log2))
  rw [← pow_add] at least most
  rw [show a.log2 + (52 - a.log2) = 52 by omega] at least
  rw [show a.log2 + 1 + (52 - a.log2) = 53 by omega] at most
  exact ⟨least, most⟩

theorem two_pow_le_mul {a k : Nat} (pos : 0 < a) (deep : 53 ≤ k) : 2 ^ 53 ≤ a * 2 ^ k :=
  calc 2 ^ 53 ≤ 2 ^ k := Nat.pow_le_pow_right (by decide) deep
    _ ≤ a * 2 ^ k := Nat.le_mul_of_pos_left _ pos

/-- A full mantissa has no room for zeros behind it. -/
theorem eq_zero_of_filled {m k : Nat} (full : 2 ^ 52 ≤ m) (small : m * 2 ^ k < 2 ^ 53) : k = 0 := by
  by_contra positive
  have : 2 ^ 53 ≤ m * 2 ^ k :=
    calc 2 ^ 53 = 2 ^ 52 * 2 ^ 1 := by norm_num
      _ ≤ m * 2 ^ k := Nat.mul_le_mul full (Nat.pow_le_pow_right (by decide) (by omega))
  omega

/-- A full mantissa that is a multiple of a power of two is the mantissa of a form. -/
theorem log2_of_filled {a k : Nat} (least : 2 ^ 52 ≤ a * 2 ^ k) (most : a * 2 ^ k < 2 ^ 53) :
    k ≤ 52 ∧ a.log2 = 52 - k := by
  have pos : a ≠ 0 := by
    rintro rfl
    simp at least
  have fits : k ≤ 52 := by
    by_contra large
    have := two_pow_le_mul (Nat.pos_of_ne_zero pos) (k := k) (by omega)
    omega
  refine ⟨fits, (Nat.log2_eq_iff pos).2 ⟨?_, ?_⟩⟩
  · refine Nat.le_of_mul_le_mul_right ?_ (Nat.two_pow_pos k)
    rw [← pow_add, show 52 - k + k = 52 by omega]
    exact least
  · refine Nat.lt_of_mul_lt_mul_right (a := 2 ^ k) ?_
    rw [← pow_add, show 52 - k + 1 + k = 53 by omega]
    exact most

theorem reads_finite_of_filled {s : Sign} {a k : Nat} {pos : 0 < a * 2 ^ k}
    (least : 2 ^ 52 ≤ a * 2 ^ k) (most : a * 2 ^ k < 2 ^ 53) :
    Reads (.finite s (a * 2 ^ k) (-k) pos) (s.apply a) := by
  obtain ⟨fits, log⟩ := log2_of_filled least most
  have small : a < 2 ^ 53 := lt_of_le_of_lt (Nat.le_mul_of_pos_right _ (Nat.two_pow_pos k)) most
  have width : 52 - a.log2 = k := by omega
  have form := Reads.finite s a small (by rw [width]; exact pos)
  have exponent : ((a.log2 : Int) - 52) = -k := by omega
  simpa only [width, exponent] using form

theorem natAbs_apply (s : Sign) (a : Nat) : (s.apply a).natAbs = a := by
  cases s <;> simp [Sign.apply]

/-- A whole number below `2 ^ 53` in size unpacks to the form of its integer. -/
theorem reads_of_int? {x : Float} {n : Int} (whole : Whole.int? x = some n)
    (small : n.natAbs < 2 ^ 53) : Reads x.toModel.unpack n := by
  unfold Whole.int? at whole
  split at whole
  · rename_i s unpacked
    cases whole
    rw [unpacked]
    exact .zero s
  · rename_i s m e pos unpacked
    obtain ⟨most, least⟩ := unpack_canonical unpacked
    rw [unpacked]
    split at whole
    -- a mantissa with zeros behind it: there is no room for any
    · rename_i whole_exponent
      obtain ⟨k, rfl⟩ := Int.eq_ofNat_of_zero_le whole_exponent
      have full : 2 ^ 52 ≤ m := by omega
      rw [Int.toNat_natCast, Nat.shiftLeft_eq, Option.some.injEq] at whole
      subst whole
      rw [natAbs_apply] at small
      obtain rfl := eq_zero_of_filled full small
      have filled : 0 < m * 2 ^ 0 := by simpa using pos
      simpa using @reads_finite_of_filled s m 0 filled (by simpa using full)
        (by simpa using most)
    · split at whole
      -- a mantissa that ends in zeros
      · rename_i fractional divides
        obtain ⟨k, rfl⟩ : ∃ k : Nat, e = -k := ⟨(-e).toNat, by omega⟩
        rw [neg_neg, Int.toNat_natCast, Nat.shiftLeft_eq] at divides
        rw [neg_neg, Int.toNat_natCast, Option.some.injEq] at whole
        generalize m >>> k = a at divides whole
        subst divides whole
        have full : 2 ^ 52 ≤ a * 2 ^ k := by
          apply least.resolve_right
          intro deep
          have := two_pow_le_mul (Nat.pos_of_mul_pos_right pos) (k := k) (by omega)
          omega
        exact reads_finite_of_filled full most
      · cases whole
  · cases whole
  · cases whole

/-- The form of an integer is a whole number. -/
theorem int?_of_reads {x : Float} {n : Int} (form : Reads x.toModel.unpack n) :
    Whole.int? x = some n := by
  unfold Whole.int?
  generalize x.toModel.unpack = u at form
  cases form with
  | zero s => rfl
  | finite s a small filled =>
      have pos : 0 < a := Nat.pos_of_mul_pos_right filled
      have below : a.log2 < 53 := (Nat.log2_lt pos.ne').2 small
      by_cases top : a.log2 = 52
      · simp [top]
      · have negative : ¬ (0 : Int) ≤ a.log2 - 52 := by omega
        have width : (-((a.log2 : Int) - 52)).toNat = 52 - a.log2 := by omega
        simp only [negative, if_false, width, Nat.shiftRight_eq_div_pow, Nat.shiftLeft_eq,
          Nat.mul_div_cancel _ (Nat.two_pow_pos (52 - a.log2)), if_true]

/-! ## Rounding -/

theorem targetExponent_eq {m : Nat} {e : Int} (full : m.log2 = 52) (room : -1074 ≤ e) :
    Format.binary64.targetExponent (totalExponent m e) = e := by
  simp only [Format.targetExponent, totalExponent, full, Format.mantissaBits, minExponent_eq]
  omega

theorem log2_mul_two_pow {a : Nat} (pos : 0 < a) (k : Nat) : (a * 2 ^ k).log2 = a.log2 + k := by
  refine (Nat.log2_eq_iff (by positivity)).2 ⟨?_, ?_⟩
  · rw [pow_add]
    exact Nat.mul_le_mul_right _ (Nat.log2_self_le pos.ne')
  · rw [show a.log2 + k + 1 = a.log2 + 1 + k by omega, pow_add]
    exact Nat.mul_lt_mul_of_pos_right Nat.lt_log2_self (Nat.two_pow_pos k)

/-- Shifting out zeros loses nothing. -/
theorem shiftRight_exact (m k : Nat) :
    ExtendedMantissa.ofMantissaAndAccuracy (m * 2 ^ k) .exact >>> k =
      ExtendedMantissa.ofMantissaAndAccuracy m .exact := by
  induction k generalizing m with
  | zero => simp only [pow_zero, mul_one]; rfl
  | succ k ih =>
      show ExtendedMantissa.shiftRightOne
        (ExtendedMantissa.ofMantissaAndAccuracy (m * 2 ^ (k + 1)) .exact >>> k) = _
      rw [pow_succ', ← mul_assoc, ih]
      simp [ExtendedMantissa.shiftRightOne, ExtendedMantissa.ofMantissaAndAccuracy]

/-- A full mantissa with zeros behind it is rounded to itself. -/
theorem roundWithAccuracy_exact (s : Sign) {m : Nat} {e : Int} (k : Nat) (pos : 0 < m)
    (full : m.log2 = 52) (room : -1074 ≤ e) :
    roundWithAccuracy Format.binary64 s (m * 2 ^ k) (e - k) .exact = .finite s m e pos := by
  have first : shiftToTargetExponent Format.binary64 (m * 2 ^ k) (e - k) .exact =
      (ExtendedMantissa.ofMantissaAndAccuracy m .exact, e) := by
    have target : Format.binary64.targetExponent (totalExponent (m * 2 ^ k) (e - k)) = e := by
      simp only [Format.targetExponent, totalExponent, log2_mul_two_pow pos, full,
        Format.mantissaBits, minExponent_eq]
      omega
    have shift : (e - (e - k)).toNat = k := by omega
    simp only [shiftToTargetExponent, target, shiftToExponent, shift,
      shiftRight_exact]
    congr 1
    omega
  have second : shiftToTargetExponent Format.binary64 m e .exact =
      (ExtendedMantissa.ofMantissaAndAccuracy m .exact, e) := by
    simp only [shiftToTargetExponent, targetExponent_eq full room, shiftToExponent, sub_self,
      Int.toNat_zero, Nat.cast_zero, add_zero]
    rfl
  have rounded : (ExtendedMantissa.ofMantissaAndAccuracy m .exact).roundedMantissa = m := rfl
  simp only [roundWithAccuracy, first, rounded, second]
  exact dif_neg pos.ne'

/-- An integer below `2 ^ 53`, written with any number of zeros behind it, is rounded to its
form. -/
theorem reads_round (s : Sign) {a : Nat} (k : Nat) (pos : 0 < a) (small : a < 2 ^ 53) :
    Reads (UnpackedFloat.round Format.binary64 s (a * 2 ^ k) (-k)) (s.apply a) := by
  have below : a.log2 < 53 := (Nat.log2_lt pos.ne').2 small
  have target : Format.binary64.targetExponent (totalExponent (a * 2 ^ k) (-k)) = a.log2 - 52 := by
    simp only [Format.targetExponent, totalExponent, log2_mul_two_pow pos, Format.mantissaBits,
      minExponent_eq]
    omega
  have scaled : a * 2 ^ k * 2 ^ (52 - a.log2 - k) =
      a * 2 ^ (52 - a.log2) * 2 ^ (k - (52 - a.log2)) := by
    rw [mul_assoc, mul_assoc, ← pow_add, ← pow_add]
    congr 2
    omega
  have filled : 0 < a * 2 ^ (52 - a.log2) := by positivity
  have rounded : UnpackedFloat.round Format.binary64 s (a * 2 ^ k) (-k) =
      .finite s (a * 2 ^ (52 - a.log2)) (a.log2 - 52) filled := by
    have full : (a * 2 ^ (52 - a.log2)).log2 = 52 := by rw [log2_mul_two_pow pos]; omega
    rw [← roundWithAccuracy_exact s (k - (52 - a.log2)) filled full (by omega)]
    simp only [UnpackedFloat.round, target, decreaseExponent, Nat.shiftLeft_eq,
      show (-(k : Int) - (a.log2 - 52)).toNat = 52 - a.log2 - k by omega, scaled]
    congr 1
    omega
  rw [rounded]
  exact .finite s a small filled

theorem reads_normalize {n : Int} (k : Nat) (z : Sign) (small : n.natAbs < 2 ^ 53) :
    Reads (UnpackedFloat.normalize Format.binary64 (n * 2 ^ k) (-k) z) n := by
  unfold UnpackedFloat.normalize
  rcases lt_trichotomy n 0 with negative | rfl | positive
  · have below : n * 2 ^ k < 0 := mul_neg_of_neg_of_pos negative (by positivity)
    have form := reads_round .negative k (a := n.natAbs) (by omega) small
    have mantissa : (-(n * 2 ^ k)).toNat = n.natAbs * 2 ^ k := by
      have : -(n * 2 ^ k) = ((n.natAbs * 2 ^ k : Nat) : Int) := by
        push_cast
        rw [abs_of_neg negative, neg_mul]
      omega
    simp only [Int.compare_eq_lt.2 below, mantissa]
    convert form
    simp [Sign.apply, abs_of_neg negative]
  · simpa using Reads.zero z
  · have above : 0 < n * 2 ^ k := by positivity
    have form := reads_round .positive k (a := n.natAbs) (by omega) small
    have mantissa : (n * 2 ^ k).toNat = n.natAbs * 2 ^ k := by
      have : n * 2 ^ k = ((n.natAbs * 2 ^ k : Nat) : Int) := by
        push_cast
        rw [abs_of_pos positive]
      omega
    simp only [Int.compare_eq_gt.2 above, mantissa]
    convert form
    simp [Sign.apply, abs_of_pos positive]

/-! ## Packing -/

theorem unpackSign_packComponents (s : Sign) (e : BitVec 11) (m : BitVec 52) :
    unpackSign (packComponents Format.binary64 s e m) = s.toBitVec := by
  show (s.toBitVec ++ e ++ m).extractLsb' 63 1 = s.toBitVec
  rw [BitVec.extractLsb'_append_eq_of_le (by decide),
    BitVec.extractLsb'_append_eq_of_le (by decide)]
  cases s <;> rfl

theorem ofBitVec_toBitVec (s : Sign) : Sign.ofBitVec s.toBitVec = s := by
  cases s <;> rfl

/-- A full mantissa survives packing, unless its exponent is too large. -/
theorem unpack_pack_filled (s : Sign) {m : Nat} {e : Int} (pos : 0 < m) (least : 2 ^ 52 ≤ m)
    (most : m < 2 ^ 53) (room : -1074 ≤ e) (fits : e ≤ 971) :
    UnpackedFloat.unpack Format.binary64 (UnpackedFloat.pack Format.binary64 (.finite s m e pos)) =
      .finite s m e pos := by
  have full : m.log2 = 52 := (Nat.log2_eq_iff pos.ne').2 ⟨least, most⟩
  generalize biased_eq : (e + 1023 + 52).toNat = biased
  have exponent : (BitVec.ofNat 11 biased).toNat = biased := by
    rw [BitVec.toNat_ofNat]
    omega
  have mantissa : (1#1 ++ BitVec.ofNat 52 m).toNat = m := by
    rw [BitVec.toNat_append, BitVec.toNat_ofNat, Nat.shiftLeft_eq, Nat.or_comm]
    show m % 2 ^ 52 ||| 2 ^ 52 = m
    rw [Nat.or_two_pow_eq_add_of_lt (Nat.mod_lt m (Nat.two_pow_pos 52))]
    omega
  have packed : UnpackedFloat.pack Format.binary64 (.finite s m e pos) =
      packComponents Format.binary64 s (BitVec.ofNat 11 biased) (BitVec.ofNat 52 m) := by
    simp only [UnpackedFloat.pack, exponentBias_eq, full]
    rw [if_neg, if_pos (by rfl)]
    · congr 2
    · show ¬ 2048 ≤ (e + 1023 + 52).toNat + 1
      omega
  -- neither of the two exponents that stand for something else
  have differs : ∀ b : BitVec 11, b.toNat ≠ biased → BitVec.ofNat 11 biased ≠ b := by
    intro b other same
    rw [← same] at other
    exact other exponent
  have notFull : BitVec.ofNat 11 biased ≠ -1#11 := differs _ (show 2047 ≠ biased by omega)
  have notZero : BitVec.ofNat 11 biased ≠ 0#11 := differs _ (show 0 ≠ biased by omega)
  rw [packed]
  simp only [UnpackedFloat.unpack, unpackMantissa_packComponents, unpackExponent_packComponents,
    unpackSign_packComponents, ofBitVec_toBitVec, exponentBias_eq, if_neg notFull, if_neg notZero,
    exponent, mantissa]
  congr 1
  omega

theorem unpack_packedZero (s : Sign) :
    UnpackedFloat.unpack Format.binary64 (packedZero Format.binary64 s) = .zero s := by
  cases s <;> rfl

/-- Packing keeps the form of an integer. -/
theorem reads_unpack_pack {u : UnpackedFloat} {n : Int} (form : Reads u n) :
    Reads (UnpackedFloat.unpack Format.binary64 (UnpackedFloat.pack Format.binary64 u)) n := by
  cases form with
  | zero s =>
      show Reads (UnpackedFloat.unpack _ (packedZero _ s)) 0
      rw [unpack_packedZero]
      exact .zero s
  | finite s a small filled =>
      have pos : 0 < a := Nat.pos_of_mul_pos_right filled
      have below : a.log2 < 53 := (Nat.log2_lt pos.ne').2 small
      obtain ⟨least, most⟩ := filled_bounds pos small
      rw [unpack_pack_filled s filled least most (by omega) (by omega)]
      exact .finite s a small filled

/-! ## Comparing -/

/-- Exponents first, then mantissas: the order of the integers. -/
theorem compare_filled {a b : Nat} (posA : 0 < a) (posB : 0 < b) :
    (compare ((a.log2 : Int) - 52) (b.log2 - 52)).then
      (compare (a * 2 ^ (52 - a.log2)) (b * 2 ^ (52 - b.log2))) = compare a b := by
  have apart : ∀ {a b : Nat}, 0 < a → a < b → a.log2 < b.log2 ∨
      a.log2 = b.log2 ∧ a * 2 ^ (52 - a.log2) < b * 2 ^ (52 - b.log2) := by
    intro a b pos less
    have : a.log2 ≤ b.log2 := (Nat.le_log2 (by omega)).2 ((Nat.log2_self_le pos.ne').trans less.le)
    rcases this.lt_or_eq with lower | same
    · exact Or.inl lower
    · exact Or.inr ⟨same, same ▸ Nat.mul_lt_mul_of_pos_right less (Nat.two_pow_pos _)⟩
  rcases lt_trichotomy a b with less | rfl | greater
  · rw [Nat.compare_eq_lt.2 less]
    rcases apart posA less with lower | ⟨same, mantissa⟩
    · rw [Int.compare_eq_lt.2 (by omega)]
      rfl
    · rw [Int.compare_eq_eq.2 (by omega), Nat.compare_eq_lt.2 mantissa]
      rfl
  · rw [Int.compare_eq_eq.2 rfl, Nat.compare_eq_eq.2 rfl, Nat.compare_eq_eq.2 rfl]
    rfl
  · rw [Nat.compare_eq_gt.2 greater]
    rcases apart posB greater with lower | ⟨same, mantissa⟩
    · rw [Int.compare_eq_gt.2 (by omega)]
      rfl
    · rw [Int.compare_eq_eq.2 (by omega), Nat.compare_eq_gt.2 mantissa]
      rfl

theorem compare_natCast (a b : Nat) : compare (a : Int) b = compare a b := by
  rcases lt_trichotomy a b with less | rfl | greater
  · rw [Nat.compare_eq_lt.2 less, Int.compare_eq_lt.2 (by omega)]
  · rw [Nat.compare_eq_eq.2 rfl, Int.compare_eq_eq.2 rfl]
  · rw [Nat.compare_eq_gt.2 greater, Int.compare_eq_gt.2 (by omega)]

theorem compare_neg_natCast (a b : Nat) : compare (-a : Int) (-b) = (compare a b).swap := by
  rcases lt_trichotomy a b with less | rfl | greater
  · rw [Nat.compare_eq_lt.2 less, Int.compare_eq_gt.2 (by omega)]
    rfl
  · rw [Nat.compare_eq_eq.2 rfl, Int.compare_eq_eq.2 rfl]
    rfl
  · rw [Nat.compare_eq_gt.2 greater, Int.compare_eq_lt.2 (by omega)]
    rfl

/-- Forms compare as their integers do. -/
theorem compare_of_reads {u v : UnpackedFloat} {m n : Int} (left : Reads u m) (right : Reads v n) :
    u.compare v = some (compare m n) := by
  cases left with
  | zero s =>
      cases right with
      | zero s' => rfl
      | finite s' b small filled =>
          have pos : 0 < b := Nat.pos_of_mul_pos_right filled
          cases s' with
          | negative => simp [UnpackedFloat.compare, Sign.apply, Int.compare_eq_gt.2, pos]
          | positive => simp [UnpackedFloat.compare, Sign.apply, Int.compare_eq_lt.2, pos]
  | finite s a small filled =>
      have posA : 0 < a := Nat.pos_of_mul_pos_right filled
      cases right with
      | zero s' =>
          cases s with
          | negative => simp [UnpackedFloat.compare, Sign.apply, Int.compare_eq_lt.2, posA]
          | positive => simp [UnpackedFloat.compare, Sign.apply, Int.compare_eq_gt.2, posA]
      | finite s' b small' filled' =>
          have posB : 0 < b := Nat.pos_of_mul_pos_right filled'
          cases s <;> cases s' <;> simp only [UnpackedFloat.compare, Sign.apply, Option.some.injEq]
          · rw [compare_filled posA posB, compare_neg_natCast]
          · exact (Int.compare_eq_lt.2 (by omega)).symm
          · exact (Int.compare_eq_gt.2 (by omega)).symm
          · rw [compare_filled posA posB, compare_natCast]

/-! ## One integer in two forms -/

/-- An integer has one form, but for the sign of zero. -/
theorem form_unique {u v : UnpackedFloat} {n : Int} (left : Reads u n) (right : Reads v n) :
    u = v ∨ ∃ s s', u = .zero s ∧ v = .zero s' := by
  generalize same : n = m at right
  cases left with
  | zero s =>
      cases right with
      | zero s' => exact .inr ⟨s, s', rfl, rfl⟩
      | finite s' b small filled =>
          have pos : 0 < b := Nat.pos_of_mul_pos_right filled
          cases s' <;> simp only [Sign.apply] at same <;> omega
  | finite s a small filled =>
      have posA : 0 < a := Nat.pos_of_mul_pos_right filled
      cases right with
      | zero s' => cases s <;> simp only [Sign.apply] at same <;> omega
      | finite s' b small' filled' =>
          have posB : 0 < b := Nat.pos_of_mul_pos_right filled'
          have size : a = b := by rw [← natAbs_apply s a, same, natAbs_apply]
          subst size
          left
          cases s <;> cases s' <;> simp only [Sign.apply] at same
          · rfl
          · omega
          · omega
          · rfl

/-- The sign of zero does not matter for comparisons, so the integer alone does. -/
theorem compare_congr {u v : UnpackedFloat} {n : Int} (left : Reads u n) (right : Reads v n)
    (w : UnpackedFloat) : u.compare w = v.compare w ∧ w.compare u = w.compare v := by
  rcases form_unique left right with rfl | ⟨s, s', rfl, rfl⟩
  · exact ⟨rfl, rfl⟩
  · cases w with
    | notANumber => exact ⟨rfl, rfl⟩
    | zero sign => exact ⟨rfl, rfl⟩
    | infinity sign => cases sign <;> exact ⟨rfl, rfl⟩
    | finite sign m e pos => cases sign <;> exact ⟨rfl, rfl⟩

end CoinSelection.Binary64
