import KernelFusion.Proofs.JsonFloats
import KernelFusion.Proofs.Rounding
import Mathlib.Algebra.Order.Field.Power
import Mathlib.Tactic.FieldSimp

/-!
# Range of decimal numbers

The shortest decimal of a finite magnitude is rounded to it, so it is hardly beyond the finite
numbers itself. A decimal number that is some steps below infinity is scaled to a finite magnitude,
though it is rounded three times.
-/

namespace KernelFusion.BinaryFormat

section Shortest

variable {f : BinaryFormat} {magnitude k d : Nat} {s : Int}

/-- A decimal number in units, as the quotient that is rounded. -/
theorem exists_nearestDecimal (f : BinaryFormat) (d : Nat) (s : Int) :
    ∃ num den, 0 < den ∧ f.nearestDecimal d s = f.nearest num den ∧
      (num / den : ℚ) = d * 10 ^ s * 2 ^ f.unitPower := by
  cases s with
  | ofNat n => exact ⟨_, 1, Nat.one_pos, rfl, by push_cast; simp⟩
  | negSucc n =>
    refine ⟨_, 10 ^ (n + 1), Nat.pow_pos (by decide), rfl, ?_⟩
    push_cast
    rw [zpow_negSucc]
    ring

/-- A decimal number that is read as a finite magnitude, some steps below infinity, is as many steps
below. -/
theorem decimal_le_of_ofDecimal (hbits : 2 ≤ f.exponentBits) (hk : k ≤ 2 ^ f.fractionBits)
    (hpos : 0 < k) (hmagnitude : 0 < magnitude) (h : magnitude + k ≤ f.infinity)
    (hread : f.ofDecimal d s = magnitude) :
    (d * 10 ^ s * 2 ^ f.unitPower : ℚ) ≤
      (2 ^ (f.fractionBits + 1) - k + 1 / 2) * 2 ^ f.lastExponent := by
  unfold ofDecimal at hread
  dsimp only at hread
  split at hread
  · omega
  · split at hread
    · omega
    · split at hread
      · omega
      · obtain ⟨num, den, hden, hnearest, hvalue⟩ := f.exists_nearestDecimal d s
        rw [← hvalue]
        refine le_of_nearest_add_le hbits hden hk hpos ?_
        omega

/-- The shortest decimal of a positive magnitude, some steps below infinity, is as many steps
below. -/
theorem shortestDecimal_le (tie : Tie) (hbits : 2 ≤ f.exponentBits) (hk : k ≤ 2 ^ f.fractionBits)
    (hpos : 0 < k) (hmagnitude : 0 < magnitude) (h : magnitude + k ≤ f.infinity) :
    ((f.shortestDecimal tie magnitude).1 * 10 ^ (f.shortestDecimal tie magnitude).2 *
        2 ^ f.unitPower : ℚ) ≤
      (2 ^ (f.fractionBits + 1) - k + 1 / 2) * 2 ^ f.lastExponent := by
  rcases f.shortestDecimal_cases tie magnitude with hread | hunits
  · exact decimal_le_of_ofDecimal hbits hk hpos hmagnitude h hread
  · rw [hunits]
    -- The decimal on the grid of the unit is the magnitude itself.
    have hvalue : ((f.units magnitude * 5 ^ f.unitPower : Nat) * 10 ^ (-(f.unitPower : Int)) *
        2 ^ f.unitPower : ℚ) = f.units magnitude := by
      have hten : (10 : ℚ) ^ f.unitPower = 5 ^ f.unitPower * 2 ^ f.unitPower := by
        rw [← mul_pow]
        norm_num
      rw [zpow_neg, zpow_natCast, hten]
      push_cast
      field_simp
    have hk' : k ≤ 2 ^ (f.fractionBits + 1) :=
      hk.trans (Nat.pow_le_pow_right (by decide) (Nat.le_succ _))
    have hunits : (f.units magnitude : ℚ) ≤
        ((2 ^ (f.fractionBits + 1) - k : Nat) : ℚ) * 2 ^ f.lastExponent := by
      exact_mod_cast f.units_le hbits hk hpos h
    rw [Nat.cast_sub hk'] at hunits
    push_cast at hunits
    refine (le_of_eq hvalue).trans (hunits.trans ?_)
    gcongr
    linarith

end Shortest

section Operations

variable {f : BinaryFormat} {a b n : Nat}

/-- A natural number is finite below the middle between the greatest finite number and the next
power of two. -/
theorem ofNat_lt_infinity (hbits : 2 ≤ f.exponentBits) (h : n * 2 ^ f.unitPower * 2 +
    2 ^ f.lastExponent < 2 ^ (f.fractionBits + 1) * 2 ^ f.lastExponent * 2) :
    f.ofNat n < f.infinity := by
  refine nearest_lt_infinity hbits Nat.one_pos ?_
  have hcast : (n * 2 ^ f.unitPower * 2 + 2 ^ f.lastExponent : ℚ) <
      2 ^ (f.fractionBits + 1) * 2 ^ f.lastExponent * 2 := by exact_mod_cast h
  push_cast
  linarith

/-- A positive number is rounded to one at least. -/
theorem two_pow_le_units_ofNat (hpos : 0 < n) (hfinite : f.ofNat n < f.infinity) :
    2 ^ f.unitPower ≤ f.units (f.ofNat n) := by
  refine two_pow_le_units Nat.one_pos hfinite ?_
  have hone : (1 : ℚ) ≤ n := by exact_mod_cast hpos
  push_cast
  rw [div_one]
  exact le_mul_of_one_le_left (by positivity) hone

/-- A positive number is rounded up by less than a unit of its last bit. -/
theorem units_ofNat_le (hunit : f.fractionBits ≤ f.unitPower) (hpos : 0 < n)
    (hfinite : f.ofNat n < f.infinity) :
    f.units (f.ofNat n) ≤ (n * 2 ^ f.unitPower * (1 + 1 / 2 ^ (f.fractionBits + 1)) : ℚ) := by
  have hone : (1 : ℚ) ≤ n := by exact_mod_cast hpos
  have hvalue : ((n * 2 ^ f.unitPower : Nat) / (1 : Nat) : ℚ) = n * 2 ^ f.unitPower := by
    push_cast
    rw [div_one]
  rw [← hvalue]
  refine units_nearest_le Nat.one_pos hfinite ?_
  rw [hvalue]
  exact (pow_le_pow_right₀ (by norm_num) hunit).trans (le_mul_of_one_le_left (by positivity) hone)

/-- A finite magnitude divided by a number that is one at least is finite. -/
theorem quotient_lt_infinity (hbits : 2 ≤ f.exponentBits) (ha : a < f.infinity)
    (hb : 2 ^ f.unitPower ≤ f.units b) : f.quotient a b < f.infinity := by
  have hbpos : 0 < f.units b := Nat.lt_of_lt_of_le (Nat.two_pow_pos _) hb
  refine nearest_lt_infinity hbits hbpos ?_
  have hunits := f.units_le hbits Nat.one_le_two_pow Nat.one_pos ha
  have hcast : (f.units a : ℚ) ≤
      ((2 ^ (f.fractionBits + 1) - 1 : Nat) : ℚ) * 2 ^ f.lastExponent := by
    exact_mod_cast hunits
  have hbcast : (2 : ℚ) ^ f.unitPower ≤ f.units b := by exact_mod_cast hb
  have hle : ((f.units a * 2 ^ f.unitPower : Nat) / f.units b : ℚ) ≤ f.units a := by
    rw [div_le_iff₀ (Nat.cast_pos.mpr hbpos)]
    push_cast
    gcongr
  rw [Nat.cast_sub Nat.one_le_two_pow] at hcast
  push_cast at hcast
  refine (hle.trans hcast).trans_lt ?_
  gcongr
  norm_num

end Operations

section Scaled

variable {v a power : Nat}

/-- As many units as this are scaled to finite magnitudes. -/
def scaledLimit : ℚ := (2 ^ 53 - 7 / 2) * 2 ^ double.lastExponent

theorem scaledLimit_pos : 0 < scaledLimit := by
  unfold scaledLimit
  norm_num

/-- A number of 64 bits is finite. -/
theorem double_ofNat_lt_of_lt (h : v < 2 ^ 64) : double.ofNat v < double.infinity := by
  refine ofNat_lt_infinity (by decide) ?_
  calc v * 2 ^ double.unitPower * 2 + 2 ^ double.lastExponent
      ≤ 2 ^ 64 * 2 ^ double.unitPower * 2 + 2 ^ double.lastExponent := by gcongr
    _ < 2 ^ (double.fractionBits + 1) * 2 ^ double.lastExponent * 2 := by decide +kernel

/-- The powers of ten up to the last one are finite. -/
theorem double_ofNat_pow_lt (h : power ≤ lastPower) :
    double.ofNat (10 ^ power) < double.infinity := by
  refine ofNat_lt_infinity (by decide) ?_
  calc 10 ^ power * 2 ^ double.unitPower * 2 + 2 ^ double.lastExponent
      ≤ 10 ^ lastPower * 2 ^ double.unitPower * 2 + 2 ^ double.lastExponent := by
        gcongr
        decide
    _ < 2 ^ (double.fractionBits + 1) * 2 ^ double.lastExponent * 2 := by decide +kernel

/-- A finite magnitude stays finite when it is scaled down. -/
theorem scaleDown_lt_infinity (h : a < double.infinity) : scaleDown a power < double.infinity := by
  have hstep : ∀ a < double.infinity, ∀ power ≤ lastPower,
      double.quotient a (double.ofNat (10 ^ power)) < double.infinity :=
    fun a ha power hpower => quotient_lt_infinity (by decide) ha
      (two_pow_le_units_ofNat (Nat.pow_pos (by decide)) (double_ofNat_pow_lt hpower))
  induction a, power using scaleDown.induct with
  | case1 a power hpower =>
    rw [scaleDown, if_pos hpower]
    exact hstep a h power hpower
  | case2 power hpower =>
    rw [scaleDown, if_neg hpower, if_pos rfl]
    exact h
  | case3 a power hpower hzero ih =>
    rw [scaleDown, if_neg hpower, if_neg hzero]
    exact ih (hstep a h lastPower (Nat.le_refl _))

/-- The product of two rounded numbers is finite if their own product is not beyond the limit. -/
theorem product_lt_infinity {n : Nat} (hv : 0 < v) (hn : 0 < n)
    (hvfinite : double.ofNat v < double.infinity) (hnfinite : double.ofNat n < double.infinity)
    (h : (v * n * 2 ^ double.unitPower : ℚ) ≤ scaledLimit) :
    double.product (double.ofNat v) (double.ofNat n) < double.infinity := by
  refine nearest_lt_infinity (by decide) (Nat.two_pow_pos _) ?_
  have hvunits := units_ofNat_le (by decide) hv hvfinite
  have hnunits := units_ofNat_le (by decide) hn hnfinite
  have hbits : (2 : ℚ) ^ (double.fractionBits + 1) = 2 ^ 53 := rfl
  rw [hbits] at hvunits hnunits ⊢
  have hunit : (0 : ℚ) < 2 ^ double.unitPower := by positivity
  have hlast : (0 : ℚ) < 2 ^ double.lastExponent := by positivity
  push_cast
  rw [div_lt_iff₀ hunit]
  calc (double.units (double.ofNat v) * double.units (double.ofNat n) : ℚ)
      ≤ v * 2 ^ double.unitPower * (1 + 1 / 2 ^ 53) *
          (n * 2 ^ double.unitPower * (1 + 1 / 2 ^ 53)) :=
        mul_le_mul hvunits hnunits (Nat.cast_nonneg _) (by positivity)
    _ = v * n * 2 ^ double.unitPower * (1 + 1 / 2 ^ 53) ^ 2 * 2 ^ double.unitPower := by ring
    _ ≤ scaledLimit * (1 + 1 / 2 ^ 53) ^ 2 * 2 ^ double.unitPower := by gcongr
    _ = (2 ^ 53 - 7 / 2) * (1 + 1 / 2 ^ 53) ^ 2 * 2 ^ double.lastExponent *
          2 ^ double.unitPower := by
        rw [scaledLimit]
        ring
    _ < (2 ^ 53 - 1 / 2) * 2 ^ double.lastExponent * 2 ^ double.unitPower := by
        gcongr
        norm_num

/-- The first power of ten that is not finite is beyond the limit. -/
theorem scaledLimit_lt : scaledLimit < 10 ^ (lastPower + 1) * 2 ^ double.unitPower := by
  -- The powers stay symbolic while the numbers are cast, and are compared as natural numbers.
  have hcast : ∀ ten unit last : Nat, 2 ^ 53 * 2 ^ last * 2 < 10 ^ ten * 2 ^ unit * 2 +
      7 * 2 ^ last → ((2 ^ 53 - 7 / 2) * 2 ^ last : ℚ) < 10 ^ ten * 2 ^ unit := by
    intro ten unit last h
    have hrational : (2 ^ 53 * 2 ^ last * 2 : ℚ) < 10 ^ ten * 2 ^ unit * 2 + 7 * 2 ^ last := by
      exact_mod_cast h
    linarith
  exact hcast _ _ _ (by decide +kernel)

/-- A number that is not beyond the limit stays finite when it is scaled up. -/
theorem scaleUp_lt_infinity (hv : v < 2 ^ 64)
    (h : (v * 10 ^ power * 2 ^ double.unitPower : ℚ) ≤ scaledLimit) :
    scaleUp (double.ofNat v) power < double.infinity := by
  unfold scaleUp
  split
  · decide
  next hne =>
    have hvpos : 0 < v := by
      refine Nat.pos_of_ne_zero (fun hzero => hne ?_)
      rw [hzero]
      decide +kernel
    split
    next hpower =>
      refine product_lt_infinity hvpos (Nat.pow_pos (by decide)) (double_ofNat_lt_of_lt hv)
        (double_ofNat_pow_lt hpower) ?_
      push_cast
      exact h
    next hpower =>
      -- Not even one is multiplied by so large a power.
      have hone : (1 : ℚ) ≤ v := by exact_mod_cast hvpos
      have hten : (10 : ℚ) ^ (lastPower + 1) ≤ 10 ^ power :=
        pow_le_pow_right₀ (by norm_num) (by omega)
      refine absurd (scaledLimit_lt.trans_le ?_) (not_lt.mpr h)
      gcongr
      exact hten.trans (le_mul_of_one_le_left (by positivity) hone)

/-- A decimal number that is not beyond the limit is scaled to a finite magnitude. -/
theorem scaled_lt_infinity {s : Int} (hv : v < 2 ^ 64)
    (h : (v * 10 ^ s * 2 ^ double.unitPower : ℚ) ≤ scaledLimit) :
    scaled v s < double.infinity := by
  cases s with
  | ofNat n => exact scaleUp_lt_infinity hv (by simpa using h)
  | negSucc n => exact scaleDown_lt_infinity (double_ofNat_lt_of_lt hv)

end Scaled

end KernelFusion.BinaryFormat
