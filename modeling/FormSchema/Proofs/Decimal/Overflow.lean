import FormSchema.Decimal.Binary64
import Mathlib.Algebra.Order.Field.Power
import Mathlib.Algebra.Order.Field.Rat
import Mathlib.Tactic.FieldSimp
import Mathlib.Tactic.Linarith
import Mathlib.Tactic.NormNum
import Mathlib.Tactic.Positivity
import Mathlib.Tactic.Ring

/-!
# Which decimals are too great for a double

A decimal is rounded to an infinity exactly from `2 ^ 1024 - 2 ^ 970` on, the middle between the
greatest finite double and the power of two above it.  The last bit of a ratio is found from the
binary logarithm of the ratio, and a ratio just below the power of two is carried up to it.
-/

namespace FormSchema

namespace Binary64

/-- The least number that is rounded to an infinity. -/
def overflow : ℚ := 2 ^ 1024 - 2 ^ 970

/-! ## Section 1: Scaled ratios -/

private theorem scale_pos {base : Nat} (hbase : 0 < base) (power : Int) {num den : Nat}
    (hden : 0 < den) :
    0 < (scale base power num den).2 :=
  Nat.mul_pos hden (Nat.pow_pos hbase)

private theorem scale_eq {base : Nat} (hbase : 0 < base) (power : Int) (num : Nat) {den : Nat}
    (hden : 0 < den) :
    ((scale base power num den).1 : ℚ) / (scale base power num den).2 =
      num / den * (base : ℚ) ^ power := by
  have hb : (base : ℚ) ≠ 0 := by exact_mod_cast hbase.ne'
  have hd : (den : ℚ) ≠ 0 := by exact_mod_cast hden.ne'
  -- one of the two natural exponents is zero, so that the powers are quotients of each other
  have hpower : (base : ℚ) ^ power.toNat = base ^ power * (base : ℚ) ^ (-power).toNat := by
    rw [← zpow_natCast, ← zpow_natCast, ← zpow_add₀ hb]
    congr 1
    omega
  simp only [scale, Nat.pow_eq]
  push_cast
  rw [hpower]
  field_simp

/-- A ratio is below a number if its scaled form is below the scaled number. -/
theorem scale_lt_iff {base : Nat} (hbase : 0 < base) (power : Int) (num : Nat) {den : Nat}
    (hden : 0 < den) (k : Nat) :
    (scale base power num den).1 < (scale base power num den).2 * k ↔
      (num : ℚ) / den < k * (base : ℚ) ^ (-power) := by
  have hpos : (0 : ℚ) < (scale base power num den).2 := by
    exact_mod_cast scale_pos hbase power hden
  have hb : (0 : ℚ) < (base : ℚ) ^ power := zpow_pos (by exact_mod_cast hbase) power
  rw [zpow_neg, ← div_eq_mul_inv, lt_div_iff₀ hb, ← scale_eq hbase power num hden,
    div_lt_iff₀ hpos, ← @Nat.cast_lt ℚ]
  push_cast
  rw [mul_comm]

/-! ## Section 2: Rounding -/

/-- A ratio is rounded to less than an even number exactly if it lies more than a half below it. -/
theorem roundHalfEven_lt_iff {num den : Nat} (hden : 0 < den) (k : Nat) :
    roundHalfEven num den < 2 * k ↔ 2 * num + den < 2 * (den * (2 * k)) := by
  have hnum := Nat.div_add_mod num den
  have hrem := Nat.mod_lt num hden
  simp only [roundHalfEven, Bool.or_eq_true, Bool.and_eq_true, decide_eq_true_iff, beq_iff_eq]
  rcases Nat.lt_trichotomy (num / den + 1) (2 * k) with hlt | heq | hgt
  · -- too far below to be carried up
    have hmul : den * (num / den + 2) ≤ den * (2 * k) := Nat.mul_le_mul_left den hlt
    rw [Nat.mul_add] at hmul
    refine iff_of_true ?_ (by omega)
    split <;> omega
  · -- from the odd number below a half goes up
    rw [← heq, Nat.mul_add]
    split <;> omega
  · have hmul : den * (2 * k) ≤ den * (num / den) :=
      Nat.mul_le_mul_left den (Nat.le_of_lt_succ hgt)
    refine iff_of_false ?_ (by omega)
    split <;> omega

private theorem roundHalfEven_le {num den k : Nat} (h : num < den * k) :
    roundHalfEven num den ≤ k := by
  have hq : num / den < k := Nat.div_lt_of_lt_mul h
  simp only [roundHalfEven]
  split <;> omega

/-! ## Section 3: The last bit -/

/-- The last bit of a ratio is the one 52 places behind its first bit, unless that is too low. -/
theorem exists_lastBitExponent {num den : Nat} (hnum : 0 < num) (hden : 0 < den) :
    ∃ e : Int, lastBitExponent num den = max e minExponent ∧
      (2 : ℚ) ^ (e + 52) ≤ num / den ∧ (num : ℚ) / den < 2 ^ (e + 53) := by
  have hn : (0 : ℚ) < num := by exact_mod_cast hnum
  have hd : (0 : ℚ) < den := by exact_mod_cast hden
  have hnLow : (2 : ℚ) ^ (num.log2 : Int) ≤ num := by
    exact_mod_cast Nat.log2_self_le hnum.ne'
  have hnHigh : (num : ℚ) < 2 ^ ((num.log2 : Int) + 1) := by exact_mod_cast Nat.lt_log2_self
  have hdLow : (2 : ℚ) ^ (den.log2 : Int) ≤ den := by
    exact_mod_cast Nat.log2_self_le hden.ne'
  have hdHigh : (den : ℚ) < 2 ^ ((den.log2 : Int) + 1) := by exact_mod_cast Nat.lt_log2_self
  -- the logarithms leave two places for the first bit
  have hlow : (2 : ℚ) ^ ((num.log2 : Int) - den.log2 - 1) ≤ num / den := by
    rw [le_div_iff₀ hd]
    calc (2 : ℚ) ^ ((num.log2 : Int) - den.log2 - 1) * den
        ≤ 2 ^ ((num.log2 : Int) - den.log2 - 1) * 2 ^ ((den.log2 : Int) + 1) := by
          gcongr
      _ = 2 ^ (num.log2 : Int) := by rw [← zpow_add₀ two_ne_zero]; congr 1; ring
      _ ≤ num := hnLow
  have hhigh : (num : ℚ) / den < 2 ^ ((num.log2 : Int) - den.log2 + 1) := by
    rw [div_lt_iff₀ hd]
    calc (num : ℚ) < 2 ^ ((num.log2 : Int) + 1) := hnHigh
      _ = 2 ^ ((num.log2 : Int) - den.log2 + 1) * 2 ^ (den.log2 : Int) := by
          rw [← zpow_add₀ two_ne_zero]; congr 1; ring
      _ ≤ 2 ^ ((num.log2 : Int) - den.log2 + 1) * den := by gcongr
  have hguess (guess : Int) : (scale 2 (-guess) num den).1 <
      (scale 2 (-guess) num den).2 * leastMantissa ↔ (num : ℚ) / den < 2 ^ (guess + 52) := by
    rw [scale_lt_iff two_pos _ _ hden, neg_neg, zpow_add₀ two_ne_zero]
    norm_num [leastMantissa, mul_comm]
  have hplaces : ((num.log2 : Int) - den.log2 - (precision - 1 : Nat)) + 52 =
      num.log2 - den.log2 := by
    simp only [precision]
    omega
  simp only [lastBitExponent, hguess]
  generalize (num.log2 : Int) - den.log2 - (precision - 1 : Nat) = guess at hplaces ⊢
  rw [← hplaces] at hlow hhigh
  split
  · next hlt =>
    have hfirst : guess - 1 + 52 = guess + 52 - 1 := by ring
    have hlast : guess - 1 + 53 = guess + 52 := by ring
    exact ⟨_, rfl, hfirst ▸ hlow, hlast ▸ hlt⟩
  · next hle =>
    have hlast : guess + 53 = guess + 52 + 1 := by ring
    exact ⟨_, rfl, not_lt.mp hle, hlast ▸ hhigh⟩

/-! ## Section 4: Infinities -/

private theorem overflow_eq : overflow = (2 ^ 54 - 1) * 2 ^ 970 := by
  rw [overflow, sub_mul, one_mul, ← pow_add]

/-- The powers of two up to the exponent of the greatest double lie below the bound. -/
private theorem zpow_lt_overflow {e : Int} (h : e ≤ 1023) : (2 : ℚ) ^ e < overflow := by
  have hpower : (2 : ℚ) ^ (1023 : Int) = 2 ^ 53 * 2 ^ 970 := by
    rw [← pow_add]
    exact zpow_ofNat 2 1023
  calc (2 : ℚ) ^ e ≤ 2 ^ (1023 : Int) := zpow_le_zpow_right₀ one_le_two h
    _ = 2 ^ 53 * 2 ^ 970 := hpower
    _ < (2 ^ 54 - 1) * 2 ^ 970 := mul_lt_mul_of_pos_right (by norm_num) (by positivity)
    _ = overflow := overflow_eq.symm

private theorem overflow_le_zpow {e : Int} (h : 1024 ≤ e) : overflow ≤ (2 : ℚ) ^ e := by
  have hpower : (2 : ℚ) ^ (1024 : Int) = 2 ^ 1024 := zpow_ofNat 2 1024
  calc overflow ≤ 2 ^ 1024 := sub_le_self _ (by positivity)
    _ = 2 ^ (1024 : Int) := hpower.symm
    _ ≤ 2 ^ e := zpow_le_zpow_right₀ one_le_two h

/-- The double nearest to a positive ratio is finite if the last bit is low enough, and a carry does
not raise it too far. -/
theorem isFinite_ofRatio_iff_exponent (negative : Bool) {num : Nat} (hnum : num ≠ 0) (den : Nat)
    {e : Int} (he : lastBitExponent num den = e) :
    (ofRatio negative num den).isFinite = true ↔ e < maxExponent ∨ e = maxExponent ∧
      roundHalfEven (scale 2 (-e) num den).1 (scale 2 (-e) num den).2 ≠ 2 * leastMantissa := by
  unfold ofRatio
  rw [if_neg hnum, he]
  -- the mantissa is not looked at, so that the kernel does not count up to it
  generalize leastMantissa = least
  dsimp only
  generalize roundHalfEven (scale 2 (-e) num den).1 (scale 2 (-e) num den).2 = m
  by_cases hcarry : m = 2 * least
  · rw [if_pos hcarry]
    dsimp only
    split
    · next h => exact iff_of_false Bool.false_ne_true (by omega)
    · next h => exact iff_of_true rfl (by omega)
  · rw [if_neg hcarry]
    dsimp only
    split
    · next h => exact iff_of_false Bool.false_ne_true (by omega)
    · next h => exact iff_of_true rfl (by omega)

/-- With the greatest last bit, a ratio is half a unit or more below the carry exactly if it is not
too great. -/
theorem carry_iff {n d : Nat} {x : ℚ} (hd : 0 < d) (h : (n : ℚ) / d = x * 2 ^ (-maxExponent)) :
    2 * n + d < 2 * (d * (2 * leastMantissa)) ↔ x < overflow := by
  have hd : (0 : ℚ) < d := by exact_mod_cast hd
  -- in units of the last bit of the greatest numbers
  have hunit : (2 : ℚ) ^ (-maxExponent) * (2 * 2 ^ 970) = 1 := by
    rw [← pow_succ', ← zpow_natCast, ← zpow_add₀ two_ne_zero]
    exact zpow_zero 2
  have hx : x = (n : ℚ) / d * 2 * 2 ^ 970 := by rw [mul_assoc, h, mul_assoc, hunit, mul_one]
  have hcast : 2 * n + d < 2 * (d * (2 * leastMantissa)) ↔ (2 * n + d : ℚ) < 2 ^ 54 * d := by
    rw [← @Nat.cast_lt ℚ]
    push_cast [leastMantissa]
    ring_nf
  have hunits : (n : ℚ) / d * 2 < 2 ^ 54 - 1 ↔ (2 * n + d : ℚ) < 2 ^ 54 * d := by
    rw [← mul_lt_mul_iff_left₀ hd, mul_right_comm, div_mul_cancel₀ _ hd.ne', sub_mul, one_mul,
      lt_sub_iff_add_lt, mul_comm (n : ℚ)]
  rw [hcast, hx, overflow_eq, mul_lt_mul_iff_left₀ (by positivity), hunits]

/-- The double nearest to a ratio is finite exactly if the ratio is not too great. -/
theorem isFinite_ofRatio_iff (negative : Bool) (num : Nat) {den : Nat} (hden : 0 < den) :
    (ofRatio negative num den).isFinite = true ↔ (num : ℚ) / den < overflow := by
  rcases Nat.eq_zero_or_pos num with rfl | hnum
  · have hpos : 0 < overflow := (zpow_pos two_pos 0).trans (zpow_lt_overflow (by decide))
    simp [ofRatio, zero, isFinite, hpos]
  obtain ⟨e, he, hlow, hhigh⟩ := exists_lastBitExponent hnum hden
  rw [isFinite_ofRatio_iff_exponent negative hnum.ne' den he]
  -- the exponent is small enough, the greatest one, or too large
  rcases Int.lt_trichotomy e maxExponent with hlt | rfl | hgt
  · have hsmall : e + 53 ≤ 1023 := by
      simp only [maxExponent] at hlt
      omega
    refine iff_of_true (.inl ?_) (hhigh.trans_le (zpow_lt_overflow hsmall).le)
    simp only [maxExponent, minExponent] at *
    omega
  · -- only the carry decides
    have hmax : max maxExponent minExponent = maxExponent := by decide
    rw [hmax]
    have hle : roundHalfEven (scale 2 (-maxExponent) num den).1 (scale 2 (-maxExponent) num den).2 ≤
        2 * leastMantissa := by
      apply roundHalfEven_le
      rw [scale_lt_iff two_pos _ _ hden]
      rw [zpow_add₀ two_ne_zero, mul_comm] at hhigh
      rw [neg_neg]
      refine hhigh.trans_eq (congrArg (· * _) ?_)
      norm_num [leastMantissa]
    have hcarry : roundHalfEven (scale 2 (-maxExponent) num den).1
        (scale 2 (-maxExponent) num den).2 ≠ 2 * leastMantissa ↔ (num : ℚ) / den < overflow := by
      rw [← hle.lt_iff_ne, roundHalfEven_lt_iff (scale_pos two_pos _ hden)]
      exact carry_iff (scale_pos two_pos _ hden) (scale_eq two_pos _ num hden)
    simp [hcarry]
  · have hgreat : 1024 ≤ e + 52 := by
      simp only [maxExponent] at hgt
      omega
    refine iff_of_false ?_ (not_lt.mpr ((overflow_le_zpow hgreat).trans hlow))
    simp only [maxExponent, minExponent] at *
    omega

/-! ## Section 5: Decimals -/

private theorem digitCount_bounds {n : Nat} (hn : n ≠ 0) :
    (10 : ℚ) ^ ((digitCount n : Int) - 1) ≤ n ∧ (n : ℚ) < 10 ^ (digitCount n : Int) := by
  have hpos : 0 < digitCount n := Nat.length_toDigits_pos
  obtain ⟨k, hk⟩ := Nat.exists_eq_add_of_lt hpos
  -- a number with a digit less would be smaller
  have hlow : 10 ^ (digitCount n - 1) ≤ n := by
    by_contra hlt
    cases k with
    | zero =>
      rw [hk] at hlt
      omega
    | succ k =>
      have hle := (Nat.length_toDigits_le_iff (by decide) (by omega)).mpr (not_le.mp hlt)
      change digitCount n ≤ digitCount n - 1 at hle
      omega
  have hhigh : n < 10 ^ digitCount n :=
    (Nat.length_toDigits_le_iff (by decide) hpos).mp (Nat.le_refl _)
  have hpred : (digitCount n : Int) - 1 = (digitCount n - 1 : Nat) := by omega
  rw [hpred, zpow_natCast, zpow_natCast]
  exact ⟨by exact_mod_cast hlow, by exact_mod_cast hhigh⟩

end Binary64

/-- The number that a decimal is. -/
def Decimal.toRat (d : Decimal) : ℚ := d.digits * 10 ^ d.exponent

namespace Binary64

/-- The double nearest to a decimal is finite exactly if the decimal is not too great. -/
theorem isFinite_ofDecimal_iff (negative : Bool) (d : Decimal) :
    (ofDecimal negative d).isFinite = true ↔ d.toRat < overflow := by
  obtain ⟨n, e⟩ := d
  have hten : 0 < 10 := by decide
  have hone : 1 < overflow := by simpa using zpow_lt_overflow (show (0 : Int) ≤ 1023 by decide)
  rw [ofDecimal]
  split
  · next hzero =>
    have hn : n = 0 := hzero
    refine iff_of_true rfl ?_
    rw [Decimal.toRat, hn, Nat.cast_zero, zero_mul]
    exact one_pos.trans hone
  next hn =>
  obtain ⟨hlow, hhigh⟩ := digitCount_bounds hn
  have hpower : (0 : ℚ) < 10 ^ e := zpow_pos (by norm_num) e
  dsimp only
  split
  · next hgreat =>
    -- so great that it is beyond the threshold
    refine iff_of_false Bool.false_ne_true (not_lt.mpr ?_)
    have htens : (2 : ℚ) ^ (1024 : Int) ≤ 10 ^ (310 : Int) := by
      have hnat : 2 ^ 1024 ≤ 10 ^ 310 := by decide +kernel
      exact_mod_cast hnat
    calc overflow ≤ 2 ^ (1024 : Int) := overflow_le_zpow (Int.le_refl _)
      _ ≤ 10 ^ (310 : Int) := htens
      _ ≤ 10 ^ ((digitCount n : Int) - 1 + e) :=
        zpow_le_zpow_right₀ (by norm_num) (by omega)
      _ = 10 ^ ((digitCount n : Int) - 1) * 10 ^ e := zpow_add₀ (by norm_num) _ _
      _ ≤ n * 10 ^ e := mul_le_mul_of_nonneg_right hlow hpower.le
  split
  · next hsmall =>
    -- so small that it is below one
    refine iff_of_true rfl (lt_trans ?_ hone)
    calc (n : ℚ) * 10 ^ e < 10 ^ (digitCount n : Int) * 10 ^ e :=
          mul_lt_mul_of_pos_right hhigh hpower
      _ = 10 ^ ((digitCount n : Int) + e) := (zpow_add₀ (by norm_num) _ _).symm
      _ ≤ 10 ^ (0 : Int) := zpow_le_zpow_right₀ (by norm_num) (by omega)
      _ = 1 := zpow_zero 10
  · have hscale := scale_eq hten e n Nat.one_pos
    -- in between the double is that of a ratio
    have hpos : 0 < (scale 10 e n 1).2 := scale_pos hten e Nat.one_pos
    rw [isFinite_ofRatio_iff _ _ hpos, hscale, Decimal.toRat]
    norm_num

end Binary64

end FormSchema
