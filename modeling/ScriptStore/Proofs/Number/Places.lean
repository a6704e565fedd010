import Mathlib
import ScriptStore.Proofs.Number.Integral
import ScriptStore.Proofs.Number.Shortest

/-!
# Where the fewest digits end

The fewest digits of a double end before the point or behind it. Up to seventeen of them are tried,
so those of a large number end before it. Digits that end before it are a natural number, and a
double that is nearest to one is one.

* `lt_pow_leadingPlace` — no number reaches the place above its first digit.
* `exponent_shortest_nonneg` — **from `10 ^ 17` on no digit stands behind the point**.
* `exponent_shortest_neg` — **the digits of a double that is no integer end behind it**.
-/

namespace ScriptStore.Decimal

open Binary64

variable {x : Ratio} {m : Magnitude} {f : Float} {negative : Bool}

/-! ## The place of the first digit -/

/-- No number reaches the place above its first digit. -/
theorem lt_pow_leadingPlace (hx : 0 < x.den) : x.value < 10 ^ leadingPlace x := by
  have hnum : (x.num : ℚ) < 10 ^ (decimalLength x.num : Int) := by
    exact_mod_cast lt_pow_decimalLength x.num
  have hden : (10 : ℚ) ^ ((decimalLength x.den : Int) - 1) ≤ x.den := by
    have hlength : 0 < decimalLength x.den := Nat.length_toDigits_pos
    have hle := pow_decimalLength_le hx.ne'
    rw [show (decimalLength x.den : Int) - 1 = (decimalLength x.den - 1 : Nat) by omega,
      zpow_natCast]
    exact_mod_cast hle
  have hpos : (0 : ℚ) < x.den := by exact_mod_cast hx
  set k : Int := (decimalLength x.num : Int) - decimalLength x.den with hk
  have hnext : x.value < 10 ^ (k + 1) := by
    rw [Ratio.value, div_lt_iff₀ hpos]
    calc (x.num : ℚ) < 10 ^ (decimalLength x.num : Int) := hnum
      _ = 10 ^ (k + 1) * 10 ^ ((decimalLength x.den : Int) - 1) := by
        rw [← zpow_add₀ (by norm_num)]
        congr 1
        omega
      _ ≤ 10 ^ (k + 1) * x.den := by gcongr
  simp only [leadingPlace, ← hk]
  split
  · rename_i hless
    have hone := (Ratio.value_lt_one_iff (Ratio.den_unscale_pos hx (by norm_num))).mpr hless
    rwa [Ratio.value_unscale, div_lt_one (by positivity)] at hone
  · exact hnext

/-- A number that reaches a power of ten has its first digit above it. -/
theorem lt_leadingPlace (hx : 0 < x.den) {k : Int} (h : 10 ^ k ≤ x.value) : k < leadingPlace x :=
  (zpow_lt_zpow_iff_right₀ (by norm_num : (1 : ℚ) < 10)).mp
    (lt_of_le_of_lt h (lt_pow_leadingPlace hx))

/-! ## The place of the last digit -/

theorem exponent_le_stripFuel (fuel : Nat) (d : Decimal) :
    d.exponent ≤ (stripFuel fuel d).exponent := by
  induction fuel generalizing d with
  | zero => exact Int.le_refl _
  | succ fuel ih =>
    unfold stripFuel
    split
    · have hnext := ih ⟨d.digits / 10, d.exponent + 1⟩
      simp only at hnext
      omega
    · exact Int.le_refl _

/-- Leaving out zeros moves the last digit to the left. -/
theorem exponent_le_strip (d : Decimal) : d.exponent ≤ d.strip.exponent :=
  exponent_le_stripFuel _ d

/-- No significand reaches `10 ^ 17`, so the exponent of a number that does is not negative. -/
theorem exponent_nonneg_of_large (hs : m.significand < 2 ^ 53) (h : 10 ^ 17 ≤ m.ratio.value) :
    0 ≤ m.exponent := by
  by_contra hneg
  have hsmall : m.ratio.value < 10 ^ 17 := by
    rw [m.value_ratio]
    calc (m.significand : ℚ) * 2 ^ m.exponent
        ≤ m.significand * 2 ^ (0 : Int) := by
          gcongr
          · norm_num
          · omega
      _ = m.significand := by rw [zpow_zero, mul_one]
      _ < 2 ^ 53 := by exact_mod_cast hs
      _ < 10 ^ 17 := by norm_num
  exact absurd h (not_le.mpr hsmall)

/-- **From `10 ^ 17` on no digit stands behind the point.** -/
theorem exponent_shortest_nonneg (hs : m.significand < 2 ^ 53) (h : 10 ^ 17 ≤ m.ratio.value)
    (tie : Tie) : 0 ≤ (shortest tie m).exponent := by
  unfold shortest
  simp only
  split
  · rename_i d hd
    obtain ⟨n, hn, hwith⟩ := List.exists_of_findSome?_eq_some hd
    have hplace : 17 < leadingPlace m.ratio :=
      lt_leadingPlace m.den_ratio_pos (by exact_mod_cast h)
    have hfew := List.mem_range.mp hn
    have hexponent := (spec_of_withDigits hwith).1
    have hstrip := exponent_le_strip d
    push_cast at hexponent
    omega
  · -- all digits of the number are written
    have hpos := exponent_nonneg_of_large hs h
    simp only
    omega

/-- **The digits of a double that is no integer end behind the point.** -/
theorem exponent_shortest_neg (h : shape f = .finite negative m) (none : toInt? f = none)
    (tie : Tie) : (shortest tie m).exponent < 0 := by
  by_contra hpos
  have hnatural : (shortest tie m).ratio =
      ⟨(shortest tie m).digits * 10 ^ (shortest tie m).exponent.toNat, 1⟩ := by
    rw [ratio, Ratio.ofScaled, if_pos (Int.not_lt.mp hpos)]
  have hback := nearestBits_shortest tie m
  rw [hnatural] at hback
  obtain ⟨k, hk⟩ := exists_natural_of_nearest h hback
  have hrest := ((Ratio.value_eq_natural_iff m.den_ratio_pos).mp hk).1
  simp [toInt?, h, hrest] at none

end ScriptStore.Decimal
