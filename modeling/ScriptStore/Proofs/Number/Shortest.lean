import ScriptStore.Number.Decimal
import ScriptStore.Proofs.Number.Rounding

/-!
# The fewest digits

* `Decimal.value_strip` — a decimal without trailing zeros is the same number.
* `Decimal.nearestBits_shortest` — **the fewest digits read back as the double that they are of**.
-/

namespace ScriptStore.Decimal

open Binary64

variable {tie : Tie} {d : Decimal} {x : Ratio} {m : Magnitude} {bits n : Nat}

theorem den_ratio_pos (d : Decimal) : 0 < d.ratio.den := Ratio.den_ofScaled_pos (by norm_num)

theorem value_ratio (d : Decimal) : d.ratio.value = d.digits * (10 : ℚ) ^ d.exponent :=
  Ratio.value_ofScaled d.digits 10 d.exponent

theorem value_stripFuel (fuel : Nat) (d : Decimal) :
    (stripFuel fuel d).ratio.value = d.ratio.value := by
  induction fuel generalizing d with
  | zero => rfl
  | succ fuel ih =>
    unfold stripFuel
    split
    · rename_i hzero
      have hdigits : (d.digits : ℚ) = (d.digits / 10 : Nat) * 10 := by
        exact_mod_cast (Nat.div_mul_cancel (Nat.dvd_of_mod_eq_zero hzero.1)).symm
      rw [ih, value_ratio, value_ratio, hdigits, zpow_add_one₀ (by norm_num)]
      ring
    · rfl

/-- A decimal without trailing zeros is the same number. -/
theorem value_strip (d : Decimal) : d.strip.ratio.value = d.ratio.value := value_stripFuel _ d

/-- What is found with a number of digits ends where these digits do, and reads back. -/
theorem spec_of_withDigits (h : withDigits tie x bits n = some d) :
    d.exponent = leadingPlace x - n ∧ nearestBits d.ratio = bits := by
  unfold withDigits at h
  extract_lets exponent y below rest readsBack upper at h
  -- in which order the two candidates are tried does not matter
  generalize (if upper then (below + 1, below) else (below, below + 1)) = candidates at h
  obtain ⟨first, second⟩ := candidates
  simp only at h
  split at h
  · rename_i hback
    cases h
    exact ⟨rfl, of_decide_eq_true hback⟩
  · split at h
    · rename_i hback
      cases h
      exact ⟨rfl, of_decide_eq_true hback⟩
    · cases h

/-- All digits of a magnitude are a way to write it. -/
theorem value_exact (m : Magnitude) :
    (ratio ⟨m.ratio.num * 5 ^ (-m.exponent).toNat, min m.exponent 0⟩).value = m.ratio.value := by
  rw [value_ratio, m.value_ratio]
  simp only [Magnitude.ratio, Ratio.ofScaled]
  split
  · rename_i he
    have hnone : (-m.exponent).toNat = 0 := by omega
    simp [hnone, min_eq_right he, zpow_of_nonneg 2 he]
  · rename_i he
    have hneg : m.exponent ≤ 0 := by omega
    rw [min_eq_left hneg, zpow_of_nonpos 10 hneg, zpow_of_nonpos 2 hneg]
    generalize (-m.exponent).toNat = k
    push_cast
    rw [show (10 : ℚ) = 5 * 2 by norm_num, mul_pow, mul_inv]
    field_simp

/-- **The fewest digits read back as the double that they are of.** -/
theorem nearestBits_shortest (tie : Tie) (m : Magnitude) :
    nearestBits (shortest tie m).ratio = nearestBits m.ratio := by
  unfold shortest
  simp only
  split
  · rename_i d h
    obtain ⟨n, -, hn⟩ := List.exists_of_findSome?_eq_some h
    rw [nearestBits_congr (den_ratio_pos _) (den_ratio_pos d) (value_strip d)]
    exact (spec_of_withDigits hn).2
  · exact nearestBits_congr (den_ratio_pos _) m.den_ratio_pos (value_exact m)

/-- They are not all zeros, unless the double is zero. -/
theorem digits_shortest_ne_zero (tie : Tie) (h : nearestBits m.ratio ≠ 0) :
    (shortest tie m).digits ≠ 0 := by
  intro hdigits
  have hnum : (shortest tie m).ratio.num = 0 :=
    (Ratio.value_eq_zero_iff (den_ratio_pos _)).mp
      (by rw [value_ratio, hdigits, Nat.cast_zero, zero_mul])
  rw [← nearestBits_shortest tie m, nearestBits, if_pos hnum] at h
  exact h rfl

end ScriptStore.Decimal
