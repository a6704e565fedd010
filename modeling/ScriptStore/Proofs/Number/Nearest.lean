import Mathlib
import ScriptStore.Proofs.Number.Double

/-!
# No double is nearer

* `Ratio.roundHalfEven_is_nearest` — no natural number is nearer to a ratio than the one that it is
  rounded to, and of two that are equally near this is the even one.
* `nearest_is_nearest` — **no finite double is nearer to a ratio than the one that it is rounded
  to**, and where another is equally near this has an even significand.
-/

namespace ScriptStore.Binary64

open Float.Model.Format (binary64)
open Float.Model.UnpackedFloat (pack unpack pack_unpack isNaNBits)

namespace Ratio

variable {x : Ratio} {k : Nat}

/-- A ratio is rounded down below the half, up above it, and to the even number in between. -/
theorem roundHalfEven_cases (hx : 0 < x.den) :
    ∃ (n : Nat) (t : ℚ), x.value = n + t ∧ 0 ≤ t ∧ t < 1 ∧
    (x.roundHalfEven = n ∧ t ≤ 1 / 2 ∧ (t = 1 / 2 → n % 2 = 0) ∨
      x.roundHalfEven = n + 1 ∧ 1 / 2 ≤ t ∧ (t = 1 / 2 → n % 2 = 1)) := by
  have hden : (0 : ℚ) < x.den := by exact_mod_cast hx
  have hrest : x.num % x.den < x.den := Nat.mod_lt _ hx
  have hsum : (x.num : ℚ) = x.den * (x.num / x.den : Nat) + (x.num % x.den : Nat) := by
    exact_mod_cast (Nat.div_add_mod x.num x.den).symm
  have hle (n : Nat) : (n : ℚ) / x.den ≤ 1 / 2 ↔ 2 * n ≤ x.den := by
    rw [div_le_div_iff₀ hden two_pos, one_mul, mul_comm]
    exact_mod_cast Iff.rfl
  have hge (n : Nat) : 1 / 2 ≤ (n : ℚ) / x.den ↔ x.den ≤ 2 * n := by
    rw [div_le_div_iff₀ two_pos hden, one_mul, mul_comm]
    exact_mod_cast Iff.rfl
  have heq (n : Nat) : (n : ℚ) / x.den = 1 / 2 ↔ 2 * n = x.den := by
    rw [le_antisymm_iff, hle, hge, ← Nat.le_antisymm_iff]
  refine ⟨x.num / x.den, (x.num % x.den : Nat) / x.den, ?_, ?_, ?_, ?_⟩
  · rw [value, hsum]
    field_simp
  · positivity
  · rw [div_lt_one hden]
    exact_mod_cast hrest
  · rw [hle, heq, hge]
    simp only [roundHalfEven]
    split <;> omega

theorem le_roundHalfEven (hx : 0 < x.den) (h : k ≤ x.value) : k ≤ x.roundHalfEven := by
  obtain ⟨n, t, hvalue, -, hhigh, hround⟩ := roundHalfEven_cases hx
  have hk : k < n + 1 := by
    have : (k : ℚ) < (n + 1 : Nat) := by push_cast; linarith
    exact_mod_cast this
  omega

theorem roundHalfEven_le (hx : 0 < x.den) (h : x.value < k) : x.roundHalfEven ≤ k := by
  obtain ⟨n, t, hvalue, hlow, -, hround⟩ := roundHalfEven_cases hx
  have hn : n < k := by
    have : (n : ℚ) < k := by linarith
    exact_mod_cast this
  omega

/-- No natural number is nearer to a ratio than the one that it is rounded to, and of two that are
equally near this is the even one. -/
theorem roundHalfEven_is_nearest (hx : 0 < x.den) (k : Nat) :
    |(x.roundHalfEven : ℚ) - x.value| ≤ |(k : ℚ) - x.value| ∧
      (|(x.roundHalfEven : ℚ) - x.value| = |(k : ℚ) - x.value| → k ≠ x.roundHalfEven →
        x.roundHalfEven % 2 = 0) := by
  obtain ⟨n, t, hvalue, hlow, hhigh, h⟩ := roundHalfEven_cases hx
  -- a natural number other than the two neighbours is more than half a unit away
  have hfar : k + 1 ≤ n ∨ k = n ∨ k = n + 1 ∨ n + 2 ≤ k := by omega
  have hbelow : k + 1 ≤ n → 1 + t ≤ |(k : ℚ) - x.value| := fun hk => by
    have hcast : (k : ℚ) + 1 ≤ n := by exact_mod_cast hk
    rw [hvalue, abs_sub_comm]
    exact le_abs.mpr (.inl (by linarith))
  have habove : n + 2 ≤ k → 2 - t ≤ |(k : ℚ) - x.value| := fun hk => by
    have hcast : (n : ℚ) + 2 ≤ k := by exact_mod_cast hk
    rw [hvalue]
    exact le_abs.mpr (.inl (by linarith))
  have hdown : |(n : ℚ) - x.value| = t := by
    rw [hvalue, abs_sub_comm, add_sub_cancel_left, abs_of_nonneg hlow]
  have hup : |((n + 1 : Nat) : ℚ) - x.value| = 1 - t := by
    rw [hvalue, Nat.cast_add_one, add_sub_add_left_eq_sub, abs_of_nonneg (by linarith)]
  rcases h with ⟨hround, hhalf, htie⟩ | ⟨hround, hhalf, htie⟩
  · rw [hround, hdown]
    rcases hfar with hk | rfl | rfl | hk
    · have := hbelow hk
      exact ⟨by linarith, fun heq => by linarith⟩
    · exact ⟨hdown.ge, fun _ hne => absurd rfl hne⟩
    · rw [hup]
      exact ⟨by linarith, fun heq _ => htie (by linarith)⟩
    · have := habove hk
      exact ⟨by linarith, fun heq => by linarith⟩
  · rw [hround, hup]
    rcases hfar with hk | rfl | rfl | hk
    · have := hbelow hk
      exact ⟨by linarith, fun heq => by linarith⟩
    · rw [hdown]
      refine ⟨by linarith, fun heq _ => ?_⟩
      have := htie (by linarith)
      omega
    · exact ⟨hup.ge, fun _ hne => absurd rfl hne⟩
    · have := habove hk
      exact ⟨by linarith, fun heq => by linarith⟩

end Ratio

/-! ## Doubles of bits -/

variable {x : Ratio} {negative : Bool} {m : Magnitude} {bits : Nat}

/-- The bits of a magnitude that a double can have. -/
theorem shapeOfBits_of_magnitude (hs : m.significand < 2 ^ 53) (hq : -1074 ≤ m.exponent)
    (normal : 2 ^ 52 ≤ m.significand ∨ m.exponent = -1074)
    (hlt : (m.exponent + 1074).toNat * 2 ^ 52 + m.significand < infinityBits) (negative : Bool) :
    shapeOfBits ((m.exponent + 1074).toNat * 2 ^ 52 + m.significand +
      if negative then 2 ^ 63 else 0) = .finite negative m := by
  obtain ⟨s, q⟩ := m
  simp only at hs hq normal hlt ⊢
  obtain ⟨k, rfl⟩ : ∃ k : Nat, q = k - 1074 := ⟨(q + 1074).toNat, by omega⟩
  have hk : ((k : Int) - 1074 + 1074).toNat = k := by omega
  rw [hk] at hlt ⊢
  unfold infinityBits at hlt
  generalize hbits : (k * 2 ^ 52 + s + if negative then 2 ^ 63 else 0) = bits
  have hsum : bits = k * 2 ^ 52 + s ∧ negative = false ∨
      bits = k * 2 ^ 52 + s + 2 ^ 63 ∧ negative = true := by
    cases negative
    · rw [if_neg Bool.false_ne_true, Nat.add_zero] at hbits
      exact .inl ⟨hbits.symm, rfl⟩
    · rw [if_pos rfl] at hbits
      exact .inr ⟨hbits.symm, rfl⟩
  have hsign : decide (2 ^ 63 ≤ bits) = negative := by
    rcases hsum with ⟨hsum, hnegative⟩ | ⟨hsum, hnegative⟩
    · rw [hnegative]
      exact decide_eq_false (by omega)
    · rw [hnegative]
      exact decide_eq_true (by omega)
  unfold shapeOfBits
  simp only [hsign]
  rcases Nat.lt_or_ge s (2 ^ 52) with hsmall | hlarge
  · have hbiased : bits / 2 ^ 52 % 2 ^ 11 = 0 := by omega
    have hfraction : bits % 2 ^ 52 = s := by omega
    have hexponent : (k : Int) - 1074 = -1074 := by omega
    rw [hbiased, hfraction, hexponent, if_neg (by omega), if_pos rfl]
  · have hbiased : bits / 2 ^ 52 % 2 ^ 11 = k + 1 := by omega
    have hfraction : 2 ^ 52 + bits % 2 ^ 52 = s := by omega
    have hexponent : ((k + 1 : Nat) : Int) - 1075 = k - 1074 := by omega
    rw [hbiased, hfraction, hexponent, if_neg (by omega), if_neg (by omega)]

theorem bounds_of_shapeOfBits (h : shapeOfBits bits = .finite negative m) :
    m.significand < 2 ^ 53 ∧ -1074 ≤ m.exponent := by
  have hfraction : bits % 2 ^ 52 < 2 ^ 52 := Nat.mod_lt _ (by norm_num)
  unfold shapeOfBits at h
  simp only at h
  generalize bits % 2 ^ 52 = fraction at *
  split at h
  · split at h <;> cases h
  · split at h
    · cases h
      exact ⟨Nat.lt_of_lt_of_le hfraction (by norm_num), Int.le_refl _⟩
    · cases h
      exact ⟨Nat.add_lt_add_left hfraction _, by simp only; omega⟩

/-- Bits that stand for a number are those of their double. -/
theorem shape_ofBits (hbits : bits < 2 ^ 64) (h : shapeOfBits bits = .finite negative m) :
    shape (Float.ofBits (.ofNat bits)) = .finite negative m := by
  have hnumber : bits / 2 ^ 52 % 2 ^ 11 ≠ 2047 := exists_shapeOfBits_iff.mp ⟨_, _, h⟩
  have hbitVec : (UInt64.ofNat bits).toBitVec.toNat = bits := by
    rw [UInt64.toNat_toBitVec, UInt64.toNat_ofNat_of_lt' hbits]
  have hnan : @isNaNBits binary64 (UInt64.ofNat bits).toBitVec = false := by
    refine decide_eq_false fun hnan => hnumber ?_
    have hexponent := congrArg BitVec.toNat hnan.1
    change ((UInt64.ofNat bits).toBitVec.toNat >>> 52) % 2 ^ 11 = 2047 at hexponent
    rwa [hbitVec, Nat.shiftRight_eq_div_pow] at hexponent
  have hsame : (Float.ofBits (.ofNat bits)).toBits.toBitVec = (UInt64.ofNat bits).toBitVec := by
    change pack binary64 (unpack binary64 (UInt64.ofNat bits).toBitVec) = _
    rw [pack_unpack, if_neg (by simp [hnan])]
  rw [shape, ← UInt64.toNat_toBitVec, hsame, hbitVec, h]

/-! ## The nearest double -/

/-- A ratio that is rounded to the bits of a magnitude is rounded to its double. -/
theorem shape_nearest (hlt : nearestBits x < infinityBits) (hs : m.significand < 2 ^ 53)
    (hq : -1074 ≤ m.exponent) (normal : 2 ^ 52 ≤ m.significand ∨ m.exponent = -1074)
    (hbits : nearestBits x = (m.exponent + 1074).toNat * 2 ^ 52 + m.significand) :
    shape (nearest negative x) = .finite negative m := by
  have hmagnitude := shapeOfBits_of_magnitude hs hq normal (hbits ▸ hlt) negative
  have hsmall : nearestBits x < 2 ^ 63 := Nat.lt_trans hlt (by unfold infinityBits; norm_num)
  have hlimit : nearestBits x + (if negative then 2 ^ 63 else 0) < 2 ^ 64 := by
    split <;> omega
  rw [← hbits] at hmagnitude
  exact shape_ofBits hlimit hmagnitude

/-- How many units of its last place a ratio is: less than `2 ^ 53`, and `2 ^ 52` at least unless
the unit is the least one. -/
theorem units_of_log2 (hx : 0 < x.den) (hnum : x.num ≠ 0) {q : Int}
    (hq : q = max (x.log2 - 52) (-1074)) :
    x.value / 2 ^ q < 2 ^ 53 ∧ (q = -1074 ∨ 2 ^ 52 ≤ x.value / 2 ^ q) := by
  have hpos := Ratio.value_pos hx hnum
  have hlog := Ratio.log2_eq hx hnum
  constructor
  · rw [div_lt_iff₀ (by positivity), ← zpow_natCast, ← zpow_add₀ two_ne_zero]
    refine (Int.lt_zpow_iff_log_lt one_lt_two hpos).mpr ?_
    push_cast
    omega
  · refine or_iff_not_imp_left.mpr fun hleast => ?_
    rw [le_div_iff₀ (by positivity), ← zpow_natCast, ← zpow_add₀ two_ne_zero]
    refine (Int.zpow_le_iff_le_log one_lt_two hpos).mpr ?_
    push_cast
    omega

/-- A ratio within the doubles is rounded to a multiple `s · 2 ^ q` of the unit of its last place.
Above the least unit it is at least `2 ^ 52` units. -/
theorem nearest_parts (hx : 0 < x.den) (hlt : nearestBits x < infinityBits) (negative : Bool) :
    ∃ (m : Magnitude) (q : Int), shape (nearest negative x) = .finite negative m ∧
      m.ratio.value = (x.unscale 2 q).roundHalfEven * 2 ^ q ∧
      ((x.unscale 2 q).roundHalfEven % 2 = 0 → m.significand % 2 = 0) ∧
      (q = -1074 ∨ 2 ^ 52 ≤ x.value / 2 ^ q) := by
  by_cases hnum : x.num = 0
  · have hround : (x.unscale 2 (-1074)).roundHalfEven = 0 := by
      refine Ratio.roundHalfEven_of_value (Ratio.den_unscale_pos hx two_pos) ?_
      rw [Ratio.value_unscale, (Ratio.value_eq_zero_iff hx).mpr hnum, zero_div, Nat.cast_zero]
    have hbits : nearestBits x = 0 := by rw [nearestBits, if_pos hnum]
    refine ⟨⟨0, -1074⟩, -1074, shape_nearest hlt (by norm_num) (Int.le_refl _) (.inr rfl) ?_, ?_,
      fun _ => rfl, .inl rfl⟩
    · simp [hbits]
    · rw [hround, Magnitude.value_ratio, Nat.cast_zero, zero_mul]
  · obtain ⟨q, hq⟩ : ∃ q, q = max (x.log2 - 52) (-1074) := ⟨_, rfl⟩
    obtain ⟨hunits, hnormal⟩ := units_of_log2 hx hnum hq
    have hden := Ratio.den_unscale_pos (e := q) hx two_pos
    have hvalue : (x.unscale 2 q).value = x.value / 2 ^ q := Ratio.value_unscale x 2 q
    have hbelow : (x.unscale 2 q).roundHalfEven ≤ 2 ^ 53 :=
      Ratio.roundHalfEven_le hden (by rw [hvalue]; exact_mod_cast hunits)
    have habove : 2 ^ 52 ≤ (x.unscale 2 q).roundHalfEven ∨ q = -1074 := hnormal.symm.imp_left
      fun hlarge => Ratio.le_roundHalfEven hden (by rw [hvalue]; exact_mod_cast hlarge)
    have hbits : nearestBits x = (q + 1074).toNat * 2 ^ 52 + (x.unscale 2 q).roundHalfEven := by
      rw [nearestBits, if_neg hnum, ← hq] at hlt ⊢
      exact Nat.min_eq_left (Nat.le_of_not_le fun hover => hlt.ne (Nat.min_eq_right hover))
    have hleast : -1074 ≤ q := by omega
    generalize hs : (x.unscale 2 q).roundHalfEven = s at *
    rcases Nat.lt_or_eq_of_le hbelow with hsmall | rfl
    · exact ⟨⟨s, q⟩, q, shape_nearest hlt hsmall hleast habove hbits,
        by rw [hs, Magnitude.value_ratio], fun h => by rwa [hs] at h, hnormal⟩
    · -- the significand has rounded up to the next power of two
      refine ⟨⟨2 ^ 52, q + 1⟩, q, shape_nearest hlt (by norm_num) (by simp only; omega)
        (.inl (Nat.le_refl _)) ?_, ?_, fun _ => by norm_num, hnormal⟩
      · rw [hbits]
        simp only
        omega
      · rw [hs, Magnitude.value_ratio, zpow_add₀ two_ne_zero]
        push_cast
        ring

/-- What is rounded to a finite double is not rounded to infinity. -/
theorem nearestBits_lt_of_isFinite (finite : (nearest negative x).isFinite = true) :
    nearestBits x < infinityBits := by
  have hle : nearestBits x ≤ infinityBits := by
    unfold nearestBits
    split
    · exact Nat.zero_le _
    · exact Nat.min_le_right _ _
  refine Nat.lt_of_le_of_ne hle fun heq => ?_
  rw [nearest, heq] at finite
  cases negative <;> revert finite <;> decide +kernel

/-- A magnitude with a smaller unit is less than `2 ^ 52` units. -/
theorem Magnitude.value_lt_of_exponent_lt {q : Int} (hs : m.significand < 2 ^ 53)
    (h : m.exponent < q) : m.ratio.value < 2 ^ 52 * 2 ^ q := by
  rw [value_ratio]
  calc (m.significand : ℚ) * 2 ^ m.exponent
      < 2 ^ 53 * 2 ^ m.exponent := by
        gcongr
        exact_mod_cast hs
    _ ≤ 2 ^ 53 * 2 ^ (q - 1) := by
        gcongr
        · norm_num
        · omega
    _ = 2 ^ 52 * 2 ^ q := by
        rw [zpow_sub_one₀ two_ne_zero]
        ring

/-- A magnitude whose unit is not smaller is a number of units. -/
theorem Magnitude.exists_value_eq {q : Int} (h : q ≤ m.exponent) :
    ∃ k : Nat, m.ratio.value = k * 2 ^ q := by
  obtain ⟨j, hj⟩ := Int.eq_ofNat_of_zero_le (Int.sub_nonneg_of_le h)
  refine ⟨m.significand * 2 ^ j, ?_⟩
  rw [value_ratio, show m.exponent = j + q by omega, zpow_add₀ two_ne_zero, zpow_natCast]
  push_cast
  ring

/-- **No finite double is nearer to a ratio than the one that it is rounded to, and where another
is equally near this has an even significand.** -/
theorem nearest_is_nearest (hx : 0 < x.den) (hlt : nearestBits x < infinityBits)
    (negative : Bool) : ∃ m, shape (nearest negative x) = .finite negative m ∧
      ∀ other n m', shape other = .finite n m' →
        |m.ratio.value - x.value| ≤ |m'.ratio.value - x.value| ∧
        (|m.ratio.value - x.value| = |m'.ratio.value - x.value| →
          m'.ratio.value ≠ m.ratio.value → m.significand % 2 = 0) := by
  obtain ⟨m, q, hshape, hvalue, heven, hlarge⟩ := nearest_parts hx hlt negative
  refine ⟨m, hshape, fun other n m' hother => ?_⟩
  obtain ⟨hs', hq'⟩ := bounds_of_shapeOfBits hother
  have hunit : (0 : ℚ) < 2 ^ q := by positivity
  have hnear := Ratio.roundHalfEven_is_nearest (Ratio.den_unscale_pos (e := q) hx two_pos)
  have hscale (k : Nat) : |(k : ℚ) * 2 ^ q - x.value| =
      |(k : ℚ) - (x.unscale 2 q).value| * 2 ^ q := by
    rw [Ratio.value_unscale, Nat.cast_two, ← abs_of_pos hunit, ← abs_mul, sub_mul, abs_of_pos hunit,
      div_mul_cancel₀ _ hunit.ne']
  rw [hvalue, hscale]
  rcases lt_or_ge m'.exponent q with hfine | hcoarse
  · -- the other double is below `2 ^ 52` units, and the ratio is not
    have hbelow := Magnitude.value_lt_of_exponent_lt hs' hfine
    have habove : (2 : ℚ) ^ 52 * 2 ^ q ≤ x.value :=
      (le_div_iff₀ hunit).mp (hlarge.resolve_left (by omega))
    have hfarther : |((2 ^ 52 : Nat) : ℚ) - (x.unscale 2 q).value| * 2 ^ q <
        |m'.ratio.value - x.value| := by
      rw [← hscale, abs_sub_comm, abs_of_nonneg (by push_cast; linarith), abs_sub_comm,
        abs_of_nonneg (by linarith)]
      push_cast
      linarith
    have hle := mul_le_mul_of_nonneg_right (hnear (2 ^ 52)).1 hunit.le
    exact ⟨by linarith, fun heq => by linarith⟩
  · obtain ⟨k, hk⟩ := Magnitude.exists_value_eq hcoarse
    rw [hk, hscale]
    refine ⟨mul_le_mul_of_nonneg_right (hnear k).1 hunit.le, fun heq hne => heven ?_⟩
    exact (hnear k).2 (mul_right_cancel₀ hunit.ne' heq) fun hsame => hne (by rw [hsame])

end ScriptStore.Binary64
