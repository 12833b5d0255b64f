import KernelFusion.Decimal.Binary
import Mathlib.Algebra.Order.Field.Rat
import Mathlib.Tactic.Linarith
import Mathlib.Tactic.Positivity
import Mathlib.Tactic.Ring

/-!
# Rounding to binary formats

A quotient is rounded to a significand times a power of two. The significand is off by at most half,
and it has all bits of the format unless the power is one. So a large quotient is rounded with a
small relative error, and it becomes infinite only if it is beyond the middle between the greatest
finite number and the next power of two.
-/

namespace KernelFusion.BinaryFormat

/-- The power of two that the significand of the greatest finite magnitudes counts, in units. -/
def lastExponent (f : BinaryFormat) : Nat := 2 ^ f.exponentBits - 3

/-- A significand and a power of two are a rounding of a number of units. -/
structure Rounds (f : BinaryFormat) (x : ℚ) (significand power : Nat) : Prop where
  /-- It is at most half a step too small. -/
  below : x ≤ (significand + 1 / 2) * 2 ^ power
  /-- It is at most half a step too large. -/
  above : (significand - 1 / 2) * 2 ^ power ≤ x
  /-- It fits, or was rounded up to the next power of two. -/
  fits : significand ≤ 2 ^ (f.fractionBits + 1)
  /-- If the step is not a unit, then the significand has all bits. -/
  full : 0 < power → 2 ^ f.fractionBits ≤ significand
  /-- If the step is not a unit, then the number has more bits than a significand. -/
  large : 0 < power → (2 : ℚ) ^ (f.fractionBits + power) ≤ x

variable {f : BinaryFormat} {num den : Nat}

/-- Rounding to the nearest goes at most half up and at most half down. -/
theorem roundHalfEven_bounds (num : Nat) (h : 0 < den) :
    2 * (roundHalfEven num den * den) ≤ 2 * num + den ∧
      2 * num ≤ 2 * (roundHalfEven num den * den) + den := by
  have hdiv : num / den * den + num % den = num := Nat.div_add_mod' num den
  have hmod := Nat.mod_lt num h
  have hup : (num / den + 1) * den = num / den * den + den := Nat.succ_mul _ _
  unfold roundHalfEven
  dsimp only
  split <;> constructor <;> omega

/-- It goes to the next natural number below or above. -/
theorem roundHalfEven_between (num den : Nat) :
    num / den ≤ roundHalfEven num den ∧ roundHalfEven num den ≤ num / den + 1 := by
  unfold roundHalfEven
  dsimp only
  split <;> omega

/-- A pattern is the rounding of its quotient, as far as it is finite. -/
theorem exists_rounds (f : BinaryFormat) (num : Nat) (h : 0 < den) :
    ∃ significand power, f.Rounds (num / den) significand power ∧
      f.nearest num den = min (significand + power * 2 ^ f.fractionBits) f.infinity := by
  let power := (num / den).log2 - f.fractionBits
  have hstep : 0 < den * 2 ^ power := Nat.mul_pos h (Nat.two_pow_pos power)
  have hquotient : num / den / 2 ^ power = num / (den * 2 ^ power) := Nat.div_div_eq_div_mul ..
  obtain ⟨hup, hdown⟩ := roundHalfEven_bounds num hstep
  obtain ⟨hlow, hhigh⟩ := roundHalfEven_between num (den * 2 ^ power)
  have hpowers : 2 ^ (f.fractionBits + 1) * 2 ^ power = 2 ^ (f.fractionBits + 1 + power) :=
    (Nat.pow_add ..).symm
  have hfits : num / (den * 2 ^ power) < 2 ^ (f.fractionBits + 1) := by
    have hlog : num / den < 2 ^ ((num / den).log2 + 1) := Nat.lt_log2_self
    have hle : 2 ^ ((num / den).log2 + 1) ≤ 2 ^ (f.fractionBits + 1 + power) :=
      Nat.pow_le_pow_right (by decide) (by omega)
    rw [← hquotient, Nat.div_lt_iff_lt_mul (Nat.two_pow_pos power), hpowers]
    exact Nat.lt_of_lt_of_le hlog hle
  have hlarge : 0 < power → 2 ^ (f.fractionBits + power) ≤ num / den := by
    intro hpower
    have hne : num / den ≠ 0 := by
      intro hzero
      have hpowerzero : power = 0 := by simp [power, hzero]
      omega
    have hlog : (num / den).log2 = f.fractionBits + power := by omega
    exact hlog ▸ Nat.log2_self_le hne
  have hden : (0 : ℚ) < den := Nat.cast_pos.mpr h
  have hpow : (0 : ℚ) < 2 ^ power := by positivity
  refine ⟨roundHalfEven num (den * 2 ^ power), power, ⟨?_, ?_, ?_, ?_, ?_⟩, rfl⟩
  · rw [div_le_iff₀ hden]
    have hcast : (2 : ℚ) * num ≤ 2 * (roundHalfEven num (den * 2 ^ power) * (den * 2 ^ power)) +
        den * 2 ^ power := by exact_mod_cast hdown
    linarith
  · rw [le_div_iff₀ hden]
    have hcast : (2 : ℚ) * (roundHalfEven num (den * 2 ^ power) * (den * 2 ^ power)) ≤
        2 * num + den * 2 ^ power := by exact_mod_cast hup
    linarith
  · omega
  · intro hpower
    refine Nat.le_trans ?_ hlow
    rw [← hquotient, Nat.le_div_iff_mul_le (Nat.two_pow_pos power), ← Nat.pow_add]
    exact hlarge hpower
  · intro hpower
    have hnum : 2 ^ (f.fractionBits + power) * den ≤ num :=
      (Nat.le_div_iff_mul_le h).mp (hlarge hpower)
    rw [le_div_iff₀ hden]
    exact_mod_cast hnum

section Overflow

variable {magnitude k : Nat}

/-- The exponent field of infinity is two above the last exponent. -/
theorem infinity_eq (h : 2 ≤ f.exponentBits) :
    f.infinity = (f.lastExponent + 2) * 2 ^ f.fractionBits := by
  have hbits : 2 ^ 2 ≤ 2 ^ f.exponentBits := Nat.pow_le_pow_right (by decide) h
  have hfield : 2 ^ f.exponentBits - 1 = f.lastExponent + 2 := by
    unfold lastExponent
    omega
  rw [infinity, hfield]

/-- Below the middle between the greatest finite number and the next power of two nothing becomes
infinite. -/
theorem nearest_lt_infinity (hbits : 2 ≤ f.exponentBits) (hden : 0 < den)
    (h : (num / den : ℚ) < (2 ^ (f.fractionBits + 1) - 1 / 2) * 2 ^ f.lastExponent) :
    f.nearest num den < f.infinity := by
  obtain ⟨significand, power, hrounds, hnearest⟩ := f.exists_rounds num hden
  rw [hnearest, infinity_eq hbits]
  refine Nat.lt_of_le_of_lt (Nat.min_le_left _ _) (Nat.lt_of_not_le (fun hle => ?_))
  have hlast : (0 : ℚ) < 2 ^ f.lastExponent := by positivity
  rcases Nat.lt_trichotomy power f.lastExponent with hlow | rfl | hhigh
  · -- The exponent field of infinity is not reached even by the carry.
    have hnext : power + 1 ≤ f.lastExponent := hlow
    have hfield := Nat.mul_le_mul_right (2 ^ f.fractionBits) hnext
    have hfits := hrounds.fits
    rw [Nat.pow_succ] at hfits
    have hpos := Nat.two_pow_pos f.fractionBits
    simp only [Nat.add_mul] at hle hfield
    omega
  · -- It is reached by a carry only.
    have hcarry : 2 ^ (f.fractionBits + 1) ≤ significand := by
      rw [Nat.pow_succ]
      rw [Nat.add_mul] at hle
      omega
    have hcast : (2 : ℚ) ^ (f.fractionBits + 1) ≤ significand := by exact_mod_cast hcarry
    have habove := hrounds.above
    nlinarith
  · have hlarge := hrounds.large (Nat.zero_lt_of_lt hhigh)
    have hpow : (2 : ℚ) ^ (f.fractionBits + 1 + f.lastExponent) ≤
        2 ^ (f.fractionBits + power) :=
      pow_le_pow_right₀ (by norm_num) (by omega)
    rw [pow_add] at hpow
    linarith

/-- A number that is rounded to a finite magnitude, some steps below infinity, is as many steps
below. -/
theorem le_of_nearest_add_le (hbits : 2 ≤ f.exponentBits) (hden : 0 < den)
    (hk : k ≤ 2 ^ f.fractionBits) (hpos : 0 < k) (h : f.nearest num den + k ≤ f.infinity) :
    (num / den : ℚ) ≤ (2 ^ (f.fractionBits + 1) - k + 1 / 2) * 2 ^ f.lastExponent := by
  obtain ⟨significand, power, hrounds, hnearest⟩ := f.exists_rounds num hden
  have hpattern : f.nearest num den = significand + power * 2 ^ f.fractionBits := by omega
  rw [hpattern, infinity_eq hbits] at h
  have hlast : (0 : ℚ) < 2 ^ f.lastExponent := by positivity
  have hstep : power ≤ f.lastExponent := by
    refine Nat.le_of_not_lt (fun hhigh => ?_)
    have hfull := hrounds.full (Nat.zero_lt_of_lt hhigh)
    have hnext : f.lastExponent + 1 ≤ power := hhigh
    have hfield := Nat.mul_le_mul_right (2 ^ f.fractionBits) hnext
    simp only [Nat.add_mul] at h hfield
    omega
  rcases Nat.lt_or_eq_of_le hstep with hlow | rfl
  · have hfits : (significand : ℚ) ≤ 2 ^ (f.fractionBits + 1) := by exact_mod_cast hrounds.fits
    have hkcast : (k : ℚ) ≤ 2 ^ f.fractionBits := by exact_mod_cast hk
    have hpow : (2 : ℚ) ^ (power + 1) ≤ 2 ^ f.lastExponent :=
      pow_le_pow_right₀ (by norm_num) hlow
    rw [pow_succ] at hpow
    have hmantissa : (0 : ℚ) < 2 ^ f.fractionBits := by positivity
    rw [pow_succ] at hfits ⊢
    have hone : (1 : ℚ) ≤ 2 ^ f.fractionBits := one_le_pow₀ (by norm_num)
    calc (num / den : ℚ) ≤ (significand + 1 / 2) * 2 ^ power := hrounds.below
      _ ≤ (2 * 2 ^ f.fractionBits + 1 / 2) * 2 ^ power := by gcongr; linarith
      _ ≤ (2 * 2 ^ f.fractionBits + 1 / 2) * (2 ^ f.lastExponent / 2) := by gcongr; linarith
      _ ≤ (2 ^ f.fractionBits * 2 - k + 1 / 2) * 2 ^ f.lastExponent := by nlinarith
  · have hcarry : significand + k ≤ 2 ^ (f.fractionBits + 1) := by
      rw [Nat.pow_succ]
      rw [Nat.add_mul] at h
      omega
    have hcast : (significand : ℚ) + k ≤ 2 ^ (f.fractionBits + 1) := by exact_mod_cast hcarry
    refine hrounds.below.trans ?_
    gcongr
    linarith

/-- A finite magnitude, some steps below infinity, is as many steps below. -/
theorem units_le (hbits : 2 ≤ f.exponentBits) (hk : k ≤ 2 ^ f.fractionBits) (hpos : 0 < k)
    (h : magnitude + k ≤ f.infinity) :
    f.units magnitude ≤ (2 ^ (f.fractionBits + 1) - k) * 2 ^ f.lastExponent := by
  rw [infinity_eq hbits] at h
  have hmod := Nat.mod_lt magnitude (Nat.two_pow_pos f.fractionBits)
  have hdiv := Nat.div_add_mod' magnitude (2 ^ f.fractionBits)
  have hlast := Nat.two_pow_pos f.lastExponent
  have hroom : 2 ^ f.fractionBits ≤ 2 ^ (f.fractionBits + 1) - k := by
    rw [Nat.pow_succ]
    omega
  unfold units
  dsimp only
  generalize magnitude / 2 ^ f.fractionBits = exponent at hdiv ⊢
  generalize magnitude % 2 ^ f.fractionBits = fraction at hdiv hmod ⊢
  have hexponent : exponent ≤ f.lastExponent + 1 := by
    refine Nat.le_of_not_lt (fun hhigh => ?_)
    have hnext : f.lastExponent + 2 ≤ exponent := hhigh
    have hfield := Nat.mul_le_mul_right (2 ^ f.fractionBits) hnext
    omega
  split
  next =>
    calc fraction ≤ 2 ^ f.fractionBits * 1 := by omega
      _ ≤ (2 ^ (f.fractionBits + 1) - k) * 2 ^ f.lastExponent := Nat.mul_le_mul hroom hlast
  next hzero =>
    rcases Nat.lt_or_eq_of_le hexponent with hlow | rfl
    · have hstep : 2 * 2 ^ (exponent - 1) ≤ 2 ^ f.lastExponent := by
        rw [← Nat.pow_succ']
        exact Nat.pow_le_pow_right (by decide) (by omega)
      calc (2 ^ f.fractionBits + fraction) * 2 ^ (exponent - 1)
          ≤ 2 ^ f.fractionBits * 2 * 2 ^ (exponent - 1) := Nat.mul_le_mul_right _ (by omega)
        _ ≤ 2 ^ f.fractionBits * 2 ^ f.lastExponent :=
            Nat.mul_assoc .. ▸ Nat.mul_le_mul_left _ hstep
        _ ≤ (2 ^ (f.fractionBits + 1) - k) * 2 ^ f.lastExponent := Nat.mul_le_mul_right _ hroom
    · rw [Nat.add_sub_cancel]
      refine Nat.mul_le_mul_right _ ?_
      simp only [Nat.add_mul] at h hdiv
      rw [Nat.pow_succ]
      omega

end Overflow

section Accuracy

variable {x : ℚ} {significand power n : Nat}

/-- A significand with all bits, or one of units, has its own number of units. -/
theorem units_add (hfits : significand ≤ 2 ^ (f.fractionBits + 1))
    (hfull : 0 < power → 2 ^ f.fractionBits ≤ significand) :
    f.units (significand + power * 2 ^ f.fractionBits) = significand * 2 ^ power := by
  have hfraction := Nat.two_pow_pos f.fractionBits
  rw [Nat.pow_succ] at hfits
  unfold units
  dsimp only
  rw [Nat.add_mul_div_right _ _ hfraction, Nat.add_mul_mod_self_right]
  rcases Nat.lt_or_ge significand (2 ^ f.fractionBits) with hlow | hhigh
  · -- Units: the exponent field is zero.
    have hpower : power = 0 := by omega
    rw [hpower, Nat.div_eq_of_lt hlow, Nat.mod_eq_of_lt hlow, if_pos rfl, Nat.pow_zero,
      Nat.mul_one]
  · obtain ⟨rest, rfl⟩ := Nat.exists_eq_add_of_le hhigh
    have hexponent : (rest / 2 ^ f.fractionBits).succ + power ≠ 0 :=
      Nat.ne_of_gt (Nat.add_pos_left (Nat.succ_pos _) _)
    rw [Nat.add_div_left _ hfraction, Nat.add_mod_left, if_neg hexponent]
    have hle : rest ≤ 2 ^ f.fractionBits := by omega
    rcases Nat.lt_or_eq_of_le hle with hrest | rfl
    · have hexponent : 0 + 1 + power - 1 = power := by omega
      rw [Nat.div_eq_of_lt hrest, Nat.mod_eq_of_lt hrest, hexponent]
    · -- The carry clears the fraction and counts one in the exponent field.
      have hexponent : 1 + 1 + power - 1 = power + 1 := by omega
      rw [Nat.div_self hfraction, Nat.mod_self, hexponent, Nat.pow_succ, Nat.add_zero,
        ← Nat.mul_two, Nat.mul_assoc, Nat.mul_comm 2]

/-- A natural number of steps that is not above the number is not above its rounding. -/
theorem Rounds.le_significand (hrounds : f.Rounds x significand power)
    (h : n * 2 ^ power ≤ x) : n ≤ significand := by
  have hpow : (0 : ℚ) < 2 ^ power := by positivity
  have hle : (n : ℚ) ≤ significand + 1 / 2 :=
    le_of_mul_le_mul_right (h.trans hrounds.below) hpow
  have hlt : (n : ℚ) < (significand + 1 : Nat) := by
    push_cast
    linarith
  exact Nat.lt_succ_iff.mp (Nat.cast_lt.mp hlt)

/-- A quotient that does not become infinite is rounded to a significand times a power of two. -/
theorem exists_units_nearest (hden : 0 < den) (hfinite : f.nearest num den < f.infinity) :
    ∃ significand power, f.Rounds (num / den) significand power ∧
      f.units (f.nearest num den) = significand * 2 ^ power := by
  obtain ⟨significand, power, hrounds, hnearest⟩ := f.exists_rounds num hden
  have hpattern : f.nearest num den = significand + power * 2 ^ f.fractionBits := by omega
  exact ⟨significand, power, hrounds, hpattern ▸ units_add hrounds.fits hrounds.full⟩

/-- No rounding goes below a power of two. -/
theorem two_pow_le_units (hden : 0 < den) (hfinite : f.nearest num den < f.infinity)
    (h : 2 ^ n ≤ (num / den : ℚ)) : 2 ^ n ≤ f.units (f.nearest num den) := by
  obtain ⟨significand, power, hrounds, hunits⟩ := exists_units_nearest hden hfinite
  have hsteps : 2 ^ (n - power) ≤ significand := by
    rcases Nat.lt_or_ge n power with hlt | hle
    · rw [Nat.sub_eq_zero_of_le (Nat.le_of_lt hlt), Nat.pow_zero]
      exact Nat.le_trans (Nat.two_pow_pos _) (hrounds.full (Nat.zero_lt_of_lt hlt))
    · refine hrounds.le_significand ?_
      push_cast
      rwa [← pow_add, Nat.sub_add_cancel hle]
  calc 2 ^ n ≤ 2 ^ (n - power + power) := Nat.pow_le_pow_right (by decide) (by omega)
    _ = 2 ^ (n - power) * 2 ^ power := Nat.pow_add ..
    _ ≤ significand * 2 ^ power := Nat.mul_le_mul_right _ hsteps
    _ = f.units (f.nearest num den) := hunits.symm

/-- A number with all bits of a significand is rounded up by less than a unit of its last bit. -/
theorem units_nearest_le (hden : 0 < den) (hfinite : f.nearest num den < f.infinity)
    (h : 2 ^ f.fractionBits ≤ (num / den : ℚ)) :
    f.units (f.nearest num den) ≤ (num / den : ℚ) * (1 + 1 / 2 ^ (f.fractionBits + 1)) := by
  obtain ⟨significand, power, hrounds, hunits⟩ := exists_units_nearest hden hfinite
  have hlarge : (2 : ℚ) ^ f.fractionBits * 2 ^ power ≤ num / den := by
    rcases Nat.eq_zero_or_pos power with rfl | hpower
    · simpa using h
    · exact pow_add (2 : ℚ) _ _ ▸ hrounds.large hpower
  have habove := hrounds.above
  have hfraction : (0 : ℚ) < 2 ^ f.fractionBits := by positivity
  have hhalf : (2 : ℚ) ^ power / 2 ≤ num / den * (1 / 2 ^ (f.fractionBits + 1)) := by
    rw [pow_succ, mul_one_div, div_le_div_iff₀ (by norm_num) (by positivity)]
    linarith
  rw [hunits]
  push_cast
  linarith

end Accuracy

end KernelFusion.BinaryFormat
