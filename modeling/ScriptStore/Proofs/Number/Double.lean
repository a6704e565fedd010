import Mathlib
import ScriptStore.Proofs.Number.Rounding

/-!
# Doubles and what they stand for

* `nearest_ratio` — **a finite double is the one nearest to what it stands for**.
* `isFinite_iff` — the finite doubles are those with a magnitude.
-/

namespace ScriptStore.Binary64

open Float.Model (UnpackedFloat)
open Float.Model.Format (binary64)
open Float.Model.UnpackedFloat (unpack unpackExponent)

variable {f : Float} {negative : Bool} {m : Magnitude} {bits : Nat}

/-- The magnitude of bits is rounded to these bits without their sign. -/
theorem nearestBits_of_shapeOfBits (h : shapeOfBits bits = .finite negative m) :
    nearestBits m.ratio = bits % 2 ^ 63 := by
  have hsplit : bits % 2 ^ 63 = bits / 2 ^ 52 % 2 ^ 11 * 2 ^ 52 + bits % 2 ^ 52 := by omega
  have hbiased : bits / 2 ^ 52 % 2 ^ 11 < 2 ^ 11 := Nat.mod_lt _ (by norm_num)
  have hfraction : bits % 2 ^ 52 < 2 ^ 52 := Nat.mod_lt _ (by norm_num)
  rw [hsplit]
  unfold shapeOfBits at h
  simp only at h
  generalize bits / 2 ^ 52 % 2 ^ 11 = biased at *
  generalize bits % 2 ^ 52 = fraction at *
  split at h
  · split at h <;> cases h
  · rename_i hnumber
    have hbelow : biased * 2 ^ 52 + fraction ≤ infinityBits := by
      unfold infinityBits
      omega
    split at h
    · rename_i hzero
      cases h
      have hsmall : fraction < 2 ^ 53 := by omega
      rw [nearestBits_ratio hsmall (Int.le_refl _) (.inr rfl), hzero]
      rw [hzero] at hbelow
      exact Nat.min_eq_left hbelow
    · cases h
      have hsmall : 2 ^ 52 + fraction < 2 ^ 53 := by omega
      have hlow : -1074 ≤ (biased : Int) - 1075 := by omega
      rw [nearestBits_ratio hsmall hlow (.inl (Nat.le_add_right _ _))]
      have hbits : ((biased : Int) - 1075 + 1074).toNat * 2 ^ 52 + (2 ^ 52 + fraction) =
          biased * 2 ^ 52 + fraction := by omega
      rw [hbits]
      exact Nat.min_eq_left hbelow

theorem negative_of_shapeOfBits (h : shapeOfBits bits = .finite negative m) :
    negative = decide (2 ^ 63 ≤ bits) := by
  unfold shapeOfBits at h
  simp only at h
  split at h
  · split at h <;> cases h
  · split at h <;> cases h <;> rfl

/-- **A finite double is the one nearest to what it stands for.** -/
theorem nearest_ratio (h : shape f = .finite negative m) : nearest negative m.ratio = f := by
  have hlimit : f.toBits.toNat < 2 ^ 64 := f.toBits.toNat_lt
  have hsum : f.toBits.toNat % 2 ^ 63 + (if negative then 2 ^ 63 else 0) = f.toBits.toNat := by
    rw [negative_of_shapeOfBits h]
    simp only [decide_eq_true_eq]
    split <;> omega
  rw [nearest, nearestBits_of_shapeOfBits h, ofMagnitudeBits, hsum, UInt64.ofNat_toNat,
    Float.ofBits_toBits]

/-- Only zero is rounded to the bits of zero. -/
theorem significand_eq_zero (h : shape f = .finite negative m) (hzero : nearestBits m.ratio = 0) :
    m.significand = 0 := by
  have hbits := nearestBits_of_shapeOfBits h
  rw [hzero] at hbits
  unfold shape at h
  generalize f.toBits.toNat = bits at *
  have hbiased : bits / 2 ^ 52 % 2 ^ 11 = 0 := by omega
  have hfraction : bits % 2 ^ 52 = 0 := by omega
  simp only [shapeOfBits, hbiased, hfraction] at h
  cases h
  rfl

/-- Bits have a magnitude unless their exponent is the greatest. -/
theorem exists_shapeOfBits_iff :
    (∃ negative m, shapeOfBits bits = .finite negative m) ↔ bits / 2 ^ 52 % 2 ^ 11 ≠ 2047 := by
  unfold shapeOfBits
  simp only
  split
  · rename_i hgreatest
    refine ⟨fun ⟨_, _, h⟩ => ?_, fun h => absurd hgreatest h⟩
    split at h <;> cases h
  · rename_i hother
    refine ⟨fun _ => hother, fun _ => ?_⟩
    split
    · exact ⟨_, _, rfl⟩
    · exact ⟨_, _, rfl⟩

/-- The magnitude of a double is not rounded to infinity. -/
theorem nearestBits_lt_infinityBits (h : shape f = .finite negative m) :
    nearestBits m.ratio < infinityBits := by
  have hbits := nearestBits_of_shapeOfBits h
  have hnumber := exists_shapeOfBits_iff.mp ⟨negative, m, h⟩
  rw [hbits]
  generalize f.toBits.toNat = bits at *
  unfold infinityBits
  omega

/-- The finite doubles are those with a magnitude. -/
theorem isFinite_iff : f.isFinite = true ↔ ∃ negative m, shape f = .finite negative m := by
  have hexponent : @unpackExponent binary64 f.toBits.toBitVec = -1#11 ↔
      f.toBits.toNat / 2 ^ 52 % 2 ^ 11 = 2047 := by
    rw [← BitVec.toNat_inj]
    change (f.toBits.toNat >>> 52) % 2 ^ 11 = 2047 ↔ _
    rw [Nat.shiftRight_eq_div_pow]
  have hfinite : f.isFinite = (unpack binary64 f.toBits.toBitVec).isFinite := rfl
  rw [shape, exists_shapeOfBits_iff, ne_eq, ← hexponent, hfinite]
  unfold unpack
  simp only
  split
  · rename_i hgreatest
    refine ⟨fun h => ?_, fun h => absurd hgreatest h⟩
    split at h <;> cases h
  · rename_i hother
    refine ⟨fun _ => hother, fun _ => ?_⟩
    split
    · split <;> rfl
    · rfl

end ScriptStore.Binary64
