import Mathlib
import ScriptStore.Proofs.Number.Places
import ScriptStore.Proofs.Number.Plain
import ScriptStore.Value.Basic

/-!
# Doubles as arguments

An argument is a text, so a double that is passed as one is written and read again. Integers below
`10 ^ 17` are written as words; all other doubles have the fewest digits that read back.

* `unsignedZero` — what a double is read back as.
* `floatArgument_eq_int64Text` — an integer below `10 ^ 17` is written as the word that it is.
* `Numeral.Writes`, `exists_writes` — **every finite double is written as a plain decimal number,
  which has a point exactly if the double is no integer**.
* `readFloat?_floatArgument` — **and it is read back**.
-/

namespace ScriptStore

open Binary64 Json

variable {f : Float} {negative : Bool} {m : Magnitude} {i : Int} {x : Ratio}

/-! ## Zeros -/

/-- A double without the sign of a zero. -/
def unsignedZero (f : Float) : Float := if f = -0.0 then 0.0 else f

theorem nearest_of_value_eq_zero (hx : 0 < x.den) (h : x.value = 0) (negative : Bool) :
    nearest negative x = if negative then -0.0 else 0.0 := by
  rw [nearest, nearestBits, if_pos ((Ratio.value_eq_zero_iff hx).mp h)]
  cases negative <;> decide +kernel

theorem value_eq_zero_iff (h : shape f = .finite negative m) :
    value f = 0 ↔ m.ratio.value = 0 := by
  rw [← abs_value_of_shape h, abs_eq_zero]

/-- The sign of a finite double is that of its number, unless it is zero. -/
theorem eq_negative_of_value_ne_zero (h : shape f = .finite negative m) (hne : value f ≠ 0) :
    negative = decide (value f < 0) := by
  have hpos : 0 < m.ratio.value :=
    lt_of_le_of_ne m.ratio.value_nonneg fun hzero => hne ((value_eq_zero_iff h).mpr hzero.symm)
  rw [value_of_shape h]
  cases negative
  · simpa using hpos.le
  · simpa using hpos

theorem value_neg_zero : value (-0.0) = 0 := by
  have hshape : shape (-0.0) = .finite true ⟨0, -1074⟩ := by decide +kernel
  rw [value_eq_zero_iff hshape, Magnitude.value_ratio, Nat.cast_zero, zero_mul]

/-- **A magnitude that is rounded with the sign of the number is the double without the sign of a
zero.** -/
theorem nearest_signed (h : shape f = .finite negative m) :
    nearest (decide (value f < 0)) m.ratio = unsignedZero f := by
  have hback := nearest_ratio h
  unfold unsignedZero
  by_cases hzero : value f = 0
  · have hnearest := nearest_of_value_eq_zero m.den_ratio_pos ((value_eq_zero_iff h).mp hzero)
    rw [hnearest] at hback ⊢
    rw [hzero, decide_eq_false (lt_irrefl 0), if_neg Bool.false_ne_true]
    cases negative with
    | true => rw [if_pos rfl] at hback; rw [if_pos hback.symm]
    | false => rw [if_neg Bool.false_ne_true] at hback; rw [← hback, ite_self]
  · have hne : f ≠ -0.0 := by
      rintro rfl
      exact hzero value_neg_zero
    rw [if_neg hne, ← eq_negative_of_value_ne_zero h hzero, hback]

/-- Without the sign of a zero a double is the same number. -/
theorem value_unsignedZero (f : Float) : value (unsignedZero f) = value f := by
  unfold unsignedZero
  split
  · rename_i hf
    have hshape : shape 0.0 = .finite false ⟨0, -1074⟩ := by decide +kernel
    rw [hf, value_neg_zero, value_eq_zero_iff hshape, Magnitude.value_ratio, Nat.cast_zero,
      zero_mul]
  · rfl

/-! ## Two ways to write a double -/

/-- A plain decimal number that is the text of a double, has a point exactly if the double is no
integer, and is read as the double. -/
structure Numeral.Writes (n : Numeral) (f : Float) : Prop where
  plain : n.IsPlain
  chars : n.chars = (floatArgument f).toList
  pointed : n.fraction.isSome = true ↔ toInt? f = none
  toFloat : n.toFloat = unsignedZero f

/-- **An integer below `10 ^ 17` is written as the word that it is.** -/
theorem floatArgument_eq_int64Text (h : toInt? f = some i) (small : i.natAbs < 10 ^ 17) :
    (truncatedWord f).toInt = i ∧ floatArgument f = int64Text (truncatedWord f) := by
  have hword := toInt_truncatedWord h (by omega) (by omega)
  have htext : floatArgument f = toString i := by simp only [floatArgument, h, if_pos small]
  exact ⟨hword, by rw [htext, int64Text, hword]⟩

theorem writes_integerNumeral (h : toInt? f = some i) (small : i.natAbs < 10 ^ 17) :
    (integerNumeral i).Writes f := by
  obtain ⟨finite, hi⟩ := toInt?_eq_some_iff.mp h
  obtain ⟨negative, m, hshape⟩ := isFinite_iff.mp finite
  obtain ⟨hword, htext⟩ := floatArgument_eq_int64Text h small
  have hvalue : (integerNumeral i).value = m.ratio.value := by
    rw [value_integerNumeral, value_ratio_of_value hshape hi]
  have hnegative : (integerNumeral i).negative = decide (value f < 0) := by
    rw [integerNumeral, negative_minusSign, hi]
    simp
  refine ⟨isPlain_integerNumeral i, ?_, ?_, ?_⟩
  · rw [htext, toList_int64Text, hword]
  · simp [integerNumeral, h]
  · rw [Numeral.toFloat_eq m.den_ratio_pos hvalue, hnegative, nearest_signed hshape]

/-- Any other double is written with the fewest digits. -/
theorem toList_floatArgument (h : shape f = .finite negative m)
    (large : ∀ i, toInt? f = some i → 10 ^ 17 ≤ i.natAbs) : (floatArgument f).toList =
      (minusSign negative).toList ++ (Decimal.shortest .up m).positional := by
  have hgeneral : floatArgument f = floatArgument.general (.finite negative m) := by
    unfold floatArgument
    cases hint : toInt? f with
    | none => rw [h]
    | some i => simp only [h, if_neg (Nat.not_lt.mpr (large i hint))]
  rw [hgeneral, floatArgument.general, String.toList_append, String.toList_ofList]
  cases negative <;> rfl

/-- The fewest digits of such a double end behind the point exactly if it is no integer. -/
theorem exponent_neg_iff (h : shape f = .finite negative m)
    (large : ∀ i, toInt? f = some i → 10 ^ 17 ≤ i.natAbs) :
    (Decimal.shortest .up m).exponent < 0 ↔ toInt? f = none := by
  refine ⟨fun hneg => ?_, fun hnone => Decimal.exponent_shortest_neg h hnone .up⟩
  cases hint : toInt? f with
  | none => rfl
  | some i =>
    have hlarge : 10 ^ 17 ≤ m.ratio.value := by
      rw [value_ratio_of_value h (toInt?_eq_some_iff.mp hint).2]
      exact_mod_cast large i hint
    have hpos := Decimal.exponent_shortest_nonneg (bounds_of_shapeOfBits h).1 hlarge .up
    omega

theorem exists_writes_of_large (h : shape f = .finite negative m)
    (large : ∀ i, toInt? f = some i → 10 ^ 17 ≤ i.natAbs) : ∃ n : Numeral, n.Writes f := by
  have finite : f.isFinite = true := isFinite_iff.mpr ⟨negative, m, h⟩
  have hne : value f ≠ 0 := fun hzero => by
    have hlarge := large 0 (toInt?_eq_some_iff.mpr ⟨finite, by rw [hzero, Int.cast_zero]⟩)
    omega
  have hd : (Decimal.shortest .up m).digits ≠ 0 := by
    refine Decimal.digits_shortest_ne_zero .up fun hbits => hne ((value_eq_zero_iff h).mpr ?_)
    rw [m.value_ratio, significand_eq_zero h hbits, Nat.cast_zero, zero_mul]
  obtain ⟨n, plain, hchars, hfraction, hnegative, hvalue⟩ := exists_plain_of_positional hd negative
  refine ⟨n, plain, ?_, hfraction.trans (exponent_neg_iff h large), ?_⟩
  · rw [hchars, toList_floatArgument h large]
  · rw [Numeral.toFloat_eq (Decimal.den_ratio_pos _) hvalue, hnegative, nearest,
      Decimal.nearestBits_shortest, ← nearest, eq_negative_of_value_ne_zero h hne, nearest_signed h]

/-- **Every finite double is written as a plain decimal number that is read as it.** -/
theorem exists_writes (finite : f.isFinite = true) : ∃ n : Numeral, n.Writes f := by
  obtain ⟨negative, m, hshape⟩ := isFinite_iff.mp finite
  by_cases hsmall : ∃ i, toInt? f = some i ∧ i.natAbs < 10 ^ 17
  · obtain ⟨i, hi, hsmall⟩ := hsmall
    exact ⟨_, writes_integerNumeral hi hsmall⟩
  · exact exists_writes_of_large hshape fun i hi => Nat.not_lt.mp fun hlt => hsmall ⟨i, hi, hlt⟩

/-- **A finite double is read back from its text**, a zero without its sign. -/
theorem readFloat?_floatArgument (finite : f.isFinite = true) :
    readFloat? (floatArgument f) = some (unsignedZero f) := by
  obtain ⟨n, writes⟩ := exists_writes finite
  rw [readFloat?_chars writes.plain writes.chars.symm, writes.toFloat]

end ScriptStore
