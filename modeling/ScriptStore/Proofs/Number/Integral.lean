import Mathlib
import ScriptStore.Proofs.Number.Integer
import ScriptStore.Proofs.Number.Nearest

/-!
# Doubles that are integers

* `value` — the number that a finite double is, and `toInt?_eq_some_iff` — the doubles that are
  integers.
* `exists_natural_of_nearest` — **a double that is nearest to a natural number is one**.
* `truncatedWord` — a double as a word of 64 bits, and `toInt_truncatedWord` — an integer in the
  range of words is not cut off.
-/

namespace ScriptStore

/-- The word that is nearest to an integer. -/
def nearestWord (i : Int) : Int64 :=
  (int64OfInt? i).getD (if i < 0 then Int64.minValue else Int64.maxValue)

namespace Binary64

variable {x : Ratio} {f : Float} {negative : Bool} {m : Magnitude} {i : Int}

/-! ## Integers among the ratios -/

theorem Ratio.value_natural (n : Nat) : (⟨n, 1⟩ : Ratio).value = n := by simp [value]

/-- A ratio is a natural number exactly if its division leaves nothing. -/
theorem Ratio.value_eq_natural_iff (hx : 0 < x.den) {n : Nat} :
    x.value = n ↔ x.num % x.den = 0 ∧ x.num / x.den = n := by
  have hden : (x.den : ℚ) ≠ 0 := by exact_mod_cast hx.ne'
  have hcross : x.value = n ↔ x.num = n * x.den := by
    rw [value, div_eq_iff hden]
    exact_mod_cast Iff.rfl
  rw [hcross]
  constructor
  · intro h
    rw [h]
    exact ⟨Nat.mul_mod_left n x.den, Nat.mul_div_cancel n hx⟩
  · rintro ⟨hrest, rfl⟩
    exact (Nat.div_mul_cancel (Nat.dvd_of_mod_eq_zero hrest)).symm

theorem Ratio.value_nonneg (x : Ratio) : 0 ≤ x.value := by
  unfold value
  positivity

/-- A natural number is one also in units that are no greater than one. -/
theorem Ratio.value_unscale_natural (n : Nat) {q : Int} (hq : q ≤ 0) :
    ((⟨n, 1⟩ : Ratio).unscale 2 q).value = (n * 2 ^ (-q).toNat : Nat) := by
  rw [value_unscale, value_natural, Nat.cast_two, zpow_of_nonpos 2 hq, div_inv_eq_mul]
  push_cast
  rfl

/-- **A double that is nearest to a natural number is one.** -/
theorem exists_natural_of_nearest (h : shape f = .finite negative m) {n : Nat}
    (near : nearestBits ⟨n, 1⟩ = nearestBits m.ratio) : ∃ k : Nat, m.ratio.value = k := by
  have hlt : nearestBits ⟨n, 1⟩ < infinityBits := near ▸ nearestBits_lt_infinityBits h
  obtain ⟨m', q, hshape, hvalue, -, -⟩ := nearest_parts Nat.one_pos hlt negative
  rw [nearest, near, ← nearest, nearest_ratio h, h] at hshape
  cases hshape
  rcases Int.le_total q 0 with hq | hq
  · -- in units that are no greater than one it is a whole number of them
    have hunits := Ratio.value_unscale_natural n hq
    rw [Ratio.roundHalfEven_of_value (Ratio.den_unscale_pos Nat.one_pos two_pos) hunits, ← hunits,
      Ratio.value_unscale, Ratio.value_natural, Nat.cast_two,
      div_mul_cancel₀ _ (zpow_ne_zero q two_ne_zero)] at hvalue
    exact ⟨n, hvalue⟩
  · refine ⟨((⟨n, 1⟩ : Ratio).unscale 2 q).roundHalfEven * 2 ^ q.toNat, ?_⟩
    rw [hvalue, Nat.cast_mul, Nat.cast_pow, Nat.cast_two, zpow_of_nonneg 2 hq]

/-! ## Integers among the doubles -/

/-- The number that a finite double is, and zero for any other. -/
def value (f : Float) : ℚ :=
  match shape f with
  | .finite negative m => if negative then -m.ratio.value else m.ratio.value
  | _ => 0

theorem value_of_shape (h : shape f = .finite negative m) :
    value f = if negative then -m.ratio.value else m.ratio.value := by
  rw [value, h]

theorem abs_value_of_shape (h : shape f = .finite negative m) : |value f| = m.ratio.value := by
  rw [value_of_shape h]
  have hnonneg := m.ratio.value_nonneg
  cases negative
  · rw [if_neg Bool.false_ne_true, abs_of_nonneg hnonneg]
  · rw [if_pos rfl, abs_neg, abs_of_nonneg hnonneg]

/-- The magnitude of an integer. -/
theorem value_ratio_of_value (h : shape f = .finite negative m) (hi : value f = i) :
    m.ratio.value = i.natAbs := by
  rw [← abs_value_of_shape h, hi]
  simp

/-- A magnitude with its sign, and without what comes after the point. -/
def Magnitude.truncated (m : Magnitude) (negative : Bool) : Int :=
  if negative then -(m.ratio.num / m.ratio.den : Nat) else (m.ratio.num / m.ratio.den : Nat)

/-- A double is an integer exactly if nothing comes after the point. -/
theorem value_eq_intCast_iff (h : shape f = .finite negative m) :
    value f = i ↔ m.ratio.num % m.ratio.den = 0 ∧ m.truncated negative = i := by
  by_cases hrest : m.ratio.num % m.ratio.den = 0
  · have hvalue : m.ratio.value = (m.ratio.num / m.ratio.den : Nat) :=
      (Ratio.value_eq_natural_iff m.den_ratio_pos).mpr ⟨hrest, rfl⟩
    have hsigned : value f = (m.truncated negative : ℚ) := by
      rw [value_of_shape h, hvalue, Magnitude.truncated]
      generalize m.ratio.num / m.ratio.den = k
      cases negative <;> simp
    rw [hsigned, Int.cast_inj]
    exact (and_iff_right hrest).symm
  · refine iff_of_false (fun hi => hrest ?_) fun hi => hrest hi.1
    exact ((Ratio.value_eq_natural_iff m.den_ratio_pos).mp (value_ratio_of_value h hi)).1

/-- The doubles that are integers. -/
theorem toInt?_eq_some_iff : toInt? f = some i ↔ f.isFinite = true ∧ value f = i := by
  rw [isFinite_iff, toInt?]
  cases hshape : shape f with
  | infinite negative => simp
  | nan => simp
  | finite negative m =>
    have hexists : ∃ n m', Shape.finite negative m = .finite n m' := ⟨negative, m, rfl⟩
    rw [and_iff_right hexists, value_eq_intCast_iff hshape]
    by_cases hrest : m.ratio.num % m.ratio.den = 0
    · simp [hrest, Magnitude.truncated]
    · simp [hrest]

/-! ## Words -/

/-- The integer part of a double as a word, cut off at the least and the greatest one; 0 for what is
no number. -/
def truncatedWord (f : Float) : Int64 :=
  match shape f with
  | .finite negative m => nearestWord (m.truncated negative)
  | .infinite negative => if negative then Int64.minValue else Int64.maxValue
  | .nan => 0

/-- An integer in the range of words is not cut off. -/
theorem toInt_truncatedWord (h : toInt? f = some i) (low : -2 ^ 63 ≤ i) (high : i < 2 ^ 63) :
    (truncatedWord f).toInt = i := by
  obtain ⟨finite, hvalue⟩ := toInt?_eq_some_iff.mp h
  obtain ⟨negative, m, hshape⟩ := isFinite_iff.mp finite
  simp only [truncatedWord, hshape, ((value_eq_intCast_iff hshape).mp hvalue).2, nearestWord,
    int64OfInt?, if_pos (And.intro low high), Option.getD_some, Int64.toInt_ofInt_of_le low high]

end Binary64

end ScriptStore
