import Mathlib.Algebra.Order.Field.Power
import Mathlib.Algebra.Order.Floor.Semifield
import Mathlib.Data.Int.Log
import Mathlib.Data.Rat.Floor
import Mathlib.Tactic.Positivity
import Mathlib.Tactic.Ring
import ScriptStore.Number.Binary64

/-!
# Rounding

A ratio stands for a rational number, and what it is rounded to depends on that number alone.

* `Ratio.value` — the number, and `Ratio.log2_eq` — its binary logarithm.
* `nearestBits_congr` — **equal numbers have the same nearest double**.
* `nearestBits_ratio` — a magnitude that a double can have is rounded to itself.
* `nearestDecimal_eq` — exponents beyond every double are settled in the same way as the others.
-/

namespace ScriptStore.Binary64

theorem zpow_of_nonneg (b : ℚ) {e : Int} (he : 0 ≤ e) : b ^ e = b ^ e.toNat := by
  rw [← zpow_natCast, Int.toNat_of_nonneg he]

theorem zpow_of_nonpos (b : ℚ) {e : Int} (he : e ≤ 0) : b ^ e = (b ^ (-e).toNat)⁻¹ := by
  rw [← zpow_natCast, Int.toNat_of_nonneg (by omega), zpow_neg, inv_inv]

namespace Ratio

variable {x y : Ratio} {m b : Nat} {e : Int}

/-- The number that a ratio stands for. -/
def value (x : Ratio) : ℚ := x.num / x.den

theorem den_ofScaled_pos (hb : 0 < b) : 0 < (ofScaled m b e).den := by
  unfold ofScaled
  split
  · exact Nat.one_pos
  · exact Nat.pow_pos hb

theorem den_unscale_pos (hx : 0 < x.den) (hb : 0 < b) : 0 < (x.unscale b e).den := by
  unfold unscale
  split
  · exact Nat.mul_pos hx (Nat.pow_pos hb)
  · exact hx

theorem value_ofScaled (m b : Nat) (e : Int) : (ofScaled m b e).value = m * (b : ℚ) ^ e := by
  unfold ofScaled
  split
  · rename_i he
    rw [zpow_of_nonneg _ he]
    simp [value]
  · rename_i he
    rw [zpow_of_nonpos _ (by omega)]
    simp [value, div_eq_mul_inv]

theorem value_unscale (x : Ratio) (b : Nat) (e : Int) :
    (x.unscale b e).value = x.value / (b : ℚ) ^ e := by
  unfold unscale
  split
  · rename_i he
    rw [zpow_of_nonneg _ he]
    simp [value, div_div]
  · rename_i he
    rw [zpow_of_nonpos _ (by omega)]
    simp [value, div_eq_mul_inv, mul_right_comm]

theorem value_eq_zero_iff (hx : 0 < x.den) : x.value = 0 ↔ x.num = 0 := by
  simp [value, hx.ne']

theorem value_pos (hx : 0 < x.den) (hnum : x.num ≠ 0) : 0 < x.value := by
  have hden : (0 : ℚ) < x.den := by exact_mod_cast hx
  have hpos : (0 : ℚ) < x.num := by exact_mod_cast Nat.pos_of_ne_zero hnum
  exact div_pos hpos hden

theorem value_lt_one_iff (hx : 0 < x.den) : x.value < 1 ↔ x.num < x.den := by
  have hden : (0 : ℚ) < x.den := by exact_mod_cast hx
  rw [value, div_lt_one hden]
  exact Nat.cast_lt

theorem num_mul_den_eq (hx : 0 < x.den) (hy : 0 < y.den) (h : x.value = y.value) :
    x.num * y.den = y.num * x.den := by
  have hx' : (x.den : ℚ) ≠ 0 := by exact_mod_cast hx.ne'
  have hy' : (y.den : ℚ) ≠ 0 := by exact_mod_cast hy.ne'
  have hcross := (div_eq_div_iff hx' hy').mp h
  exact_mod_cast hcross

/-! ## The nearest natural number -/

theorem roundHalfEven_scale (n d : Nat) {k : Nat} (hk : 0 < k) :
    (⟨n * k, d * k⟩ : Ratio).roundHalfEven = (⟨n, d⟩ : Ratio).roundHalfEven := by
  have hlt : d * k < 2 * (n % d * k) ↔ d < 2 * (n % d) := by
    rw [← Nat.mul_assoc, Nat.mul_lt_mul_right hk]
  have heq : 2 * (n % d * k) = d * k ↔ 2 * (n % d) = d := by
    rw [← Nat.mul_assoc, Nat.mul_left_inj hk.ne']
  simp only [roundHalfEven, Nat.mul_div_mul_right n d hk, Nat.mul_mod_mul_right, hlt, heq]

theorem roundHalfEven_congr (hx : 0 < x.den) (hy : 0 < y.den) (h : x.value = y.value) :
    x.roundHalfEven = y.roundHalfEven := by
  calc x.roundHalfEven
      = (⟨x.num * y.den, x.den * y.den⟩ : Ratio).roundHalfEven :=
        (roundHalfEven_scale x.num x.den hy).symm
    _ = (⟨y.num * x.den, y.den * x.den⟩ : Ratio).roundHalfEven := by
        rw [num_mul_den_eq hx hy h, Nat.mul_comm x.den]
    _ = y.roundHalfEven := roundHalfEven_scale y.num y.den hx

theorem roundHalfEven_of_value {n : Nat} (hx : 0 < x.den) (h : x.value = n) :
    x.roundHalfEven = n := by
  have hone : x.value = (⟨n, 1⟩ : Ratio).value := h.trans (by simp [value])
  rw [roundHalfEven_congr hx Nat.one_pos hone]
  simp [roundHalfEven, Nat.mod_one]

theorem roundHalfEven_eq_zero (hx : 0 < x.den) (h : x.value < 1 / 2) : x.roundHalfEven = 0 := by
  have hden : (0 : ℚ) < x.den := by exact_mod_cast hx
  have hless : 2 * x.num < x.den := by
    rw [value, div_lt_div_iff₀ hden two_pos] at h
    have hcast : ((x.num * 2 : Nat) : ℚ) < (1 * x.den : Nat) := by push_cast; exact h
    have := Nat.cast_lt.mp hcast
    omega
  have hquotient : x.num / x.den = 0 := Nat.div_eq_of_lt (by omega)
  have hrest : x.num % x.den = x.num := Nat.mod_eq_of_lt (by omega)
  have hdown : ¬(x.den < 2 * x.num ∨ (2 * x.num = x.den ∧ 0 % 2 = 1)) := by omega
  simp only [roundHalfEven, hquotient, hrest, if_neg hdown]

/-! ## The binary logarithm -/

theorem two_zpow_natLog_le {n : Nat} (h : n ≠ 0) : (2 : ℚ) ^ (n.log2 : Int) ≤ n := by
  exact_mod_cast Nat.log2_self_le h

theorem lt_two_zpow_natLog (n : Nat) : (n : ℚ) < 2 ^ ((n.log2 : Int) + 1) := by
  exact_mod_cast Nat.lt_log2_self (n := n)

theorem log2_eq (hx : 0 < x.den) (hnum : x.num ≠ 0) : x.log2 = Int.log 2 x.value := by
  have hpos := value_pos hx hnum
  have hden : (0 : ℚ) < x.den := by exact_mod_cast hx
  have hlow : (2 : ℚ) ^ ((x.num.log2 : Int) - x.den.log2 - 1) ≤ x.value := by
    rw [value, le_div_iff₀ hden]
    calc (2 : ℚ) ^ ((x.num.log2 : Int) - x.den.log2 - 1) * x.den
        ≤ 2 ^ ((x.num.log2 : Int) - x.den.log2 - 1) * 2 ^ ((x.den.log2 : Int) + 1) := by
          gcongr
          exact (lt_two_zpow_natLog _).le
      _ = 2 ^ (x.num.log2 : Int) := by
          rw [← zpow_add₀ two_ne_zero]
          congr 1
          ring
      _ ≤ x.num := two_zpow_natLog_le hnum
  have hhigh : x.value < (2 : ℚ) ^ ((x.num.log2 : Int) - x.den.log2 + 1) := by
    rw [value, div_lt_iff₀ hden]
    calc (x.num : ℚ) < 2 ^ ((x.num.log2 : Int) + 1) := lt_two_zpow_natLog _
      _ = 2 ^ ((x.num.log2 : Int) - x.den.log2 + 1) * 2 ^ (x.den.log2 : Int) := by
          rw [← zpow_add₀ two_ne_zero]
          congr 1
          ring
      _ ≤ 2 ^ ((x.num.log2 : Int) - x.den.log2 + 1) * x.den := by
          gcongr
          exact two_zpow_natLog_le hx.ne'
  have hlow' := (Int.zpow_le_iff_le_log one_lt_two hpos).mp hlow
  have hhigh' := (Int.lt_zpow_iff_log_lt one_lt_two hpos).mp hhigh
  set e : Int := (x.num.log2 : Int) - x.den.log2 with he
  have hless : (x.unscale 2 e).num < (x.unscale 2 e).den ↔ Int.log 2 x.value < e := by
    rw [← value_lt_one_iff (den_unscale_pos hx two_pos), value_unscale, div_lt_one (by positivity)]
    exact Int.lt_zpow_iff_log_lt one_lt_two hpos
  simp only [log2, ← he, hless]
  split <;> omega

end Ratio

variable {x y : Ratio}

/-! ## The nearest double -/

/-- **Equal numbers have the same nearest double.** -/
theorem nearestBits_congr (hx : 0 < x.den) (hy : 0 < y.den) (h : x.value = y.value) :
    nearestBits x = nearestBits y := by
  have hnum : x.num = 0 ↔ y.num = 0 := by
    rw [← Ratio.value_eq_zero_iff hx, h, Ratio.value_eq_zero_iff hy]
  unfold nearestBits
  by_cases hzero : x.num = 0
  · rw [if_pos hzero, if_pos (hnum.mp hzero)]
  · have hzero' : y.num ≠ 0 := fun h => hzero (hnum.mpr h)
    have hlog : x.log2 = y.log2 := by
      rw [Ratio.log2_eq hx hzero, Ratio.log2_eq hy hzero', h]
    have hround : (x.unscale 2 (max (y.log2 - 52) (-1074))).roundHalfEven =
        (y.unscale 2 (max (y.log2 - 52) (-1074))).roundHalfEven :=
      Ratio.roundHalfEven_congr (Ratio.den_unscale_pos hx two_pos)
        (Ratio.den_unscale_pos hy two_pos) (by rw [Ratio.value_unscale, Ratio.value_unscale, h])
    simp only [if_neg hzero, if_neg hzero', hlog, hround]

theorem Magnitude.den_ratio_pos (m : Magnitude) : 0 < m.ratio.den := Ratio.den_ofScaled_pos two_pos

theorem Magnitude.value_ratio (m : Magnitude) :
    m.ratio.value = m.significand * (2 : ℚ) ^ m.exponent :=
  Ratio.value_ofScaled m.significand 2 m.exponent

/-- A magnitude that a double can have is rounded to itself. -/
theorem nearestBits_ratio {m : Magnitude} (hs : m.significand < 2 ^ 53) (hq : -1074 ≤ m.exponent)
    (normal : 2 ^ 52 ≤ m.significand ∨ m.exponent = -1074) :
    nearestBits m.ratio =
      min ((m.exponent + 1074).toNat * 2 ^ 52 + m.significand) infinityBits := by
  have hx := m.den_ratio_pos
  have h := m.value_ratio
  obtain ⟨s, q⟩ := m
  simp only at hs hq normal h
  generalize Magnitude.ratio ⟨s, q⟩ = x at *
  by_cases hzero : s = 0
  · subst hzero
    have hnum : x.num = 0 := (Ratio.value_eq_zero_iff hx).mp (by simp [h])
    have hlow : q = -1074 := normal.resolve_left (by norm_num)
    simp [nearestBits, hnum, hlow]
  · have hsq : (s : ℚ) ≠ 0 := by exact_mod_cast hzero
    have hnum : x.num ≠ 0 := fun hnum => by
      have := (Ratio.value_eq_zero_iff hx).mpr hnum
      rw [h] at this
      exact (mul_ne_zero hsq (zpow_ne_zero _ two_ne_zero)) this
    have hpos := Ratio.value_pos hx hnum
    have hlow : (2 : ℚ) ^ ((s.log2 : Int) + q) ≤ x.value := by
      rw [h, zpow_add₀ two_ne_zero]
      gcongr
      exact Ratio.two_zpow_natLog_le hzero
    have hhigh : x.value < 2 ^ ((s.log2 : Int) + q + 1) := by
      rw [h, add_right_comm, zpow_add₀ two_ne_zero]
      gcongr
      exact Ratio.lt_two_zpow_natLog s
    have hlow' := (Int.zpow_le_iff_le_log one_lt_two hpos).mp hlow
    have hhigh' := (Int.lt_zpow_iff_log_lt one_lt_two hpos).mp hhigh
    have hlog : x.log2 = s.log2 + q := by
      rw [Ratio.log2_eq hx hnum]
      omega
    have hbelow : s.log2 < 53 := (Nat.log2_lt hzero).mpr hs
    have habove : s.log2 = 52 ∨ q = -1074 := normal.imp_left fun hnormal => by
      have := (Nat.le_log2 hzero).mpr hnormal
      omega
    have hunit : max (x.log2 - 52) (-1074) = q := by omega
    have hround : (x.unscale 2 q).roundHalfEven = s := by
      refine Ratio.roundHalfEven_of_value (Ratio.den_unscale_pos hx two_pos) ?_
      rw [Ratio.value_unscale, h]
      exact mul_div_cancel_right₀ _ (zpow_ne_zero _ two_ne_zero)
    simp only [nearestBits, if_neg hnum, hunit, hround]

/-- Far above the largest double there is only infinity. -/
theorem nearestBits_of_large (hx : 0 < x.den) (h : 2 ^ (1025 : Int) ≤ x.value) :
    nearestBits x = infinityBits := by
  have hpos : 0 < x.value := lt_of_lt_of_le (by positivity) h
  have hnum : x.num ≠ 0 := fun hnum => hpos.ne' ((Ratio.value_eq_zero_iff hx).mpr hnum)
  have hlog : 1025 ≤ x.log2 := by
    rw [Ratio.log2_eq hx hnum]
    exact (Int.zpow_le_iff_le_log one_lt_two hpos).mp h
  rw [nearestBits, if_neg hnum]
  have hexponent : 2047 ≤ (max (x.log2 - 52) (-1074) + 1074).toNat := by omega
  refine Nat.min_eq_right ?_
  unfold infinityBits
  omega

/-- Far below the smallest double there is only zero. -/
theorem nearestBits_of_small (hx : 0 < x.den) (h : x.value < 2 ^ (-1076 : Int)) :
    nearestBits x = 0 := by
  unfold nearestBits
  split
  · rfl
  · rename_i hnum
    have hpos := Ratio.value_pos hx hnum
    have hlog : x.log2 < -1076 := by
      rw [Ratio.log2_eq hx hnum]
      exact (Int.lt_zpow_iff_log_lt one_lt_two hpos).mp h
    have hunit : max (x.log2 - 52) (-1074) = -1074 := by omega
    have hround : (x.unscale 2 (-1074)).roundHalfEven = 0 := by
      refine Ratio.roundHalfEven_eq_zero (Ratio.den_unscale_pos hx two_pos) ?_
      rw [Ratio.value_unscale, div_lt_iff₀ (by positivity)]
      calc x.value < 2 ^ (-1076 : Int) := h
        _ ≤ 1 / 2 * 2 ^ (-1074 : Int) := by
          rw [show (-1076 : Int) = -2 + -1074 by norm_num, zpow_add₀ two_ne_zero]
          gcongr
          norm_num
    simp only [hunit, hround]
    rfl

/-! ## Decimal numbers -/

theorem lt_pow_decimalLength (n : Nat) : n < 10 ^ decimalLength n :=
  (Nat.length_toDigits_le_iff (by decide) Nat.length_toDigits_pos).mp (Nat.le_refl _)

theorem pow_decimalLength_le {n : Nat} (h : n ≠ 0) : 10 ^ (decimalLength n - 1) ≤ n := by
  by_contra hlt
  have hpos : 0 < decimalLength n := Nat.length_toDigits_pos
  rcases Nat.eq_zero_or_pos (decimalLength n - 1) with hone | hmore
  · rw [hone] at hlt
    omega
  · have hle : decimalLength n ≤ decimalLength n - 1 :=
      (Nat.length_toDigits_le_iff (by decide) hmore).mpr (Nat.lt_of_not_le hlt)
    omega

/-- A decimal number with a digit beyond the largest double is far above it. -/
theorem large_of_decimal {digits : Nat} {exponent : Int} (hdigits : digits ≠ 0)
    (h : 310 < exponent + decimalLength digits) :
    (2 : ℚ) ^ (1025 : Int) ≤ digits * 10 ^ exponent := by
  have hlength : 0 < decimalLength digits := Nat.length_toDigits_pos
  have hlow : ((10 : ℚ) ^ (decimalLength digits - 1)) ≤ digits := by
    exact_mod_cast pow_decimalLength_le hdigits
  calc (2 : ℚ) ^ (1025 : Int) = (2 ^ 205) ^ 5 := by rw [← pow_mul, zpow_ofNat]
    _ ≤ (10 ^ 62) ^ 5 := by gcongr; norm_num
    _ = 10 ^ (310 : Int) := by rw [← pow_mul, zpow_ofNat]
    _ ≤ 10 ^ (((decimalLength digits - 1 : Nat) : Int) + exponent) :=
        zpow_le_zpow_right₀ (by norm_num) (by omega)
    _ = 10 ^ (decimalLength digits - 1) * 10 ^ exponent := by
        rw [zpow_add₀ (by norm_num), zpow_natCast]
    _ ≤ digits * 10 ^ exponent := by gcongr

/-- A decimal number whose digits all stand below the smallest double is far below it. -/
theorem small_of_decimal {digits : Nat} {exponent : Int}
    (h : exponent + decimalLength digits < -330) :
    (digits * 10 ^ exponent : ℚ) < 2 ^ (-1076 : Int) := by
  have hhigh : (digits : ℚ) < 10 ^ decimalLength digits := by
    exact_mod_cast lt_pow_decimalLength digits
  calc (digits * 10 ^ exponent : ℚ) < 10 ^ decimalLength digits * 10 ^ exponent := by gcongr
    _ = 10 ^ ((decimalLength digits : Int) + exponent) := by
        rw [zpow_add₀ (by norm_num), zpow_natCast]
    _ ≤ 10 ^ (-330 : Int) := zpow_le_zpow_right₀ (by norm_num) (by omega)
    _ = ((10 ^ 66) ^ 5)⁻¹ := by rw [← pow_mul, zpow_neg, zpow_ofNat]
    _ ≤ ((2 ^ 216) ^ 5)⁻¹ := by gcongr; norm_num
    _ = 2 ^ (-1080 : Int) := by rw [← pow_mul, zpow_neg, zpow_ofNat]
    _ ≤ 2 ^ (-1076 : Int) := zpow_le_zpow_right₀ (by norm_num) (by norm_num)

/-- The digits alone settle the exponents beyond every double, in the way of the others. -/
theorem nearestDecimal_eq (negative : Bool) (digits : Nat) (exponent : Int) :
    nearestDecimal negative digits exponent = nearest negative (.ofScaled digits 10 exponent) := by
  have hden : 0 < (Ratio.ofScaled digits 10 exponent).den := Ratio.den_ofScaled_pos (by decide)
  have hvalue : (Ratio.ofScaled digits 10 exponent).value = digits * 10 ^ exponent :=
    Ratio.value_ofScaled digits 10 exponent
  unfold nearestDecimal nearest
  split
  · rename_i hzero
    have hnum : (Ratio.ofScaled digits 10 exponent).num = 0 :=
      (Ratio.value_eq_zero_iff hden).mp (by rw [hvalue, hzero, Nat.cast_zero, zero_mul])
    rw [nearestBits, if_pos hnum]
  · rename_i hdigits
    simp only
    split
    · rename_i htop
      rw [nearestBits_of_large hden (by rw [hvalue]; exact large_of_decimal hdigits htop)]
    · split
      · rename_i htop
        rw [nearestBits_of_small hden (by rw [hvalue]; exact small_of_decimal htop)]
      · rfl

end ScriptStore.Binary64
