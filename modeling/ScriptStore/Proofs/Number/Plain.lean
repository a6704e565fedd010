import ScriptStore.Proofs.Json.Number
import ScriptStore.Proofs.Number.Integral

/-!
# Plain decimal numbers

A plain decimal number has a minus sign or none, digits, and a point only if digits follow it. It
has no exponent.

* `Numeral.number` — the number that a numeral writes, and `toFloat_is_nearest` — **no finite double
  is nearer to it than the one that it is read as**.
* `Numeral.IsPlain` — a plain decimal number, and `readFloat?_chars` — **it is read as that double**.
* `exists_plain_of_positional` — **a decimal in positional notation is a plain decimal number**. It
  has a point exactly if the last digit of the decimal stands behind it.
-/

namespace ScriptStore

open Binary64 Json

variable {n : Numeral} {d : Decimal} {text : String}

/-! ## The nearest double -/

/-- The number that a numeral writes. -/
def Numeral.number (n : Numeral) : ℚ := if n.negative then -n.value else n.value

theorem abs_number (n : Numeral) : |n.number| = n.value := by
  have hnonneg : 0 ≤ n.value := by
    unfold Numeral.value
    positivity
  unfold Numeral.number
  split
  · rw [abs_neg, abs_of_nonneg hnonneg]
  · rw [abs_of_nonneg hnonneg]

/-- **No finite double is nearer to what a numeral writes than the one that it is read as.** -/
theorem toFloat_is_nearest (finite : n.toFloat.isFinite = true) {g : Float}
    (other : g.isFinite = true) : |n.number - value n.toFloat| ≤ |n.number - value g| := by
  let x := Ratio.ofScaled (digitsValue (n.whole ++ n.fractionDigits)) 10
    (n.exponentValue - n.fractionDigits.length)
  have hx : 0 < x.den := Ratio.den_ofScaled_pos (by norm_num)
  have hvalue : n.value = x.value := (Ratio.value_ofScaled _ 10 _).symm
  rw [Numeral.toFloat_eq hx hvalue] at finite ⊢
  obtain ⟨negative, m', hother⟩ := isFinite_iff.mp other
  obtain ⟨m, hshape, hnear⟩ := nearest_is_nearest hx (nearestBits_lt_of_isFinite finite) n.negative
  have hsame : |n.number - value (nearest n.negative x)| = |m.ratio.value - x.value| := by
    rw [value_of_shape hshape, Numeral.number, hvalue]
    split
    · rw [neg_sub_neg]
    · rw [abs_sub_comm]
  -- with another sign a double is only farther away
  calc |n.number - value (nearest n.negative x)| = |m.ratio.value - x.value| := hsame
    _ ≤ |m'.ratio.value - x.value| := (hnear g negative m' hother).1
    _ = |(|n.number| - |value g|)| := by
      rw [abs_number, abs_value_of_shape hother, hvalue, abs_sub_comm]
    _ ≤ |n.number - value g| := abs_abs_sub_abs_le _ _

/-! ## Plain decimal numbers -/

namespace Numeral

/-- A plain decimal number. -/
structure IsPlain (n : Numeral) : Prop where
  spelled : n.Spelled
  unsigned : n.sign ≠ some '+'
  whole : n.whole ≠ []
  fraction : n.fraction ≠ some []
  exponent : n.exponent = none

/-- What follows the sign begins with a digit. -/
theorem IsPlain.exists_digit (plain : n.IsPlain) :
    ∃ c rest, n.whole ++ n.tail = c :: rest ∧ c.isDigit = true := by
  obtain ⟨c, rest, hwhole⟩ := List.exists_cons_of_ne_nil plain.whole
  refine ⟨c, rest ++ n.tail, by rw [hwhole]; rfl, plain.spelled.whole c ?_⟩
  rw [hwhole]
  exact List.mem_cons_self ..

end Numeral

theorem toLower_of_isDigit {c : Char} (h : c.isDigit = true) : c.toLower = c := by
  have hhigh : c.val ≤ '9'.val := by
    simp only [Char.isDigit, Bool.and_eq_true, decide_eq_true_eq] at h
    exact h.2
  have hnot : ¬ (c.val ≥ 'A'.val ∧ c.val ≤ 'Z'.val) := by
    rintro ⟨hlow, -⟩
    exact absurd (UInt32.le_trans hlow hhigh) (by decide)
  simp only [Char.toLower]
  rw [dif_neg hnot]

/-- What begins with a digit is no word. -/
theorem ne_word_of_isDigit {c : Char} (h : c.isDigit = true) (rest : List Char) (word : String)
    (letter : ∀ c ∈ word.toList.head?, c.isDigit = false) :
    String.ofList ((c :: rest).map Char.toLower) ≠ word := by
  rintro rfl
  have hhead := letter c.toLower (by simp)
  rw [toLower_of_isDigit h, h] at hhead
  cases hhead

/-- **A plain decimal number is read as the double nearest to it.** -/
theorem readFloat?_chars (plain : n.IsPlain) (h : text.toList = n.chars) :
    readFloat? text = some n.toFloat := by
  obtain ⟨c, rest, hrest, hc⟩ := plain.exists_digit
  have hsigned : ∀ c ∈ (n.whole ++ n.tail).head?, c ≠ '+' ∧ c ≠ '-' := by
    rw [hrest]
    rintro _ ⟨⟩
    exact not_sign_of_isDigit hc
  have htake : takeSign text.toList = (n.sign, c :: rest) := by
    rw [h, Numeral.chars, takeSign_append plain.spelled.sign hsigned, hrest]
  have hscan : Numeral.scan text.toList = (n, []) := by rw [h, Numeral.scan_chars plain.spelled]
  have hinf := ne_word_of_isDigit hc rest "inf" (by simp)
  have hinfinity := ne_word_of_isDigit hc rest "infinity" (by simp)
  have hnan := ne_word_of_isDigit hc rest "nan" (by simp)
  have hdigits : (n.whole ++ n.fractionDigits).isEmpty = false := by
    simp [List.isEmpty_eq_false_iff, plain.whole]
  have hcomplete : n.exponentComplete = true := by rw [Numeral.exponentComplete, plain.exponent]
  simp only [readFloat?, htake, hinf, hinfinity, hnan, or_self, if_false, hscan, hdigits, hcomplete,
    List.isEmpty_nil, Bool.not_false, Bool.and_self, if_true]

/-! ## Writing -/

/-- A numeral of a document is plain if it has no exponent. -/
theorem isPlain_of_wellFormed (spelled : n.Spelled) (formed : wellFormed n = true)
    (exponent : n.exponent = none) : n.IsPlain := by
  simp only [wellFormed, Bool.and_eq_true, decide_eq_true_eq] at formed
  obtain ⟨⟨⟨hsign, hwhole⟩, hfraction⟩, -⟩ := formed
  refine ⟨spelled, hsign, fun hnone => ?_, hfraction, exponent⟩
  rw [hnone] at hwhole
  cases hwhole

theorem isPlain_integerNumeral (i : Int) : (integerNumeral i).IsPlain :=
  isPlain_of_wellFormed (spelled_integerNumeral i) (wellFormed_integerNumeral i) rfl

theorem value_integerNumeral (i : Int) : (integerNumeral i).value = i.natAbs := by
  simp [Numeral.value, Numeral.fractionDigits, Numeral.exponentValue, integerNumeral]

/-- Digits and zeros before the point, and nothing behind it. -/
theorem exists_plain_of_whole (he : 0 ≤ d.exponent) (negative : Bool) :
    ∃ n : Numeral, n.IsPlain ∧ n.chars = (minusSign negative).toList ++ d.positional ∧
      n.fraction = none ∧ n.negative = negative ∧ n.value = d.ratio.value := by
  let n : Numeral :=
    ⟨minusSign negative, d.chars ++ List.replicate d.exponent.toNat '0', none, none⟩
  have hdigits : AreDigits n.whole := (areDigits_toDigits _).append (areDigits_replicate _)
  have spelled : n.Spelled :=
    { sign := isSign_minusSign negative
      whole := hdigits
      fraction := fun _ h => absurd h List.not_mem_nil
      exponentSign := fun _ h => by cases h
      exponentDigits := fun _ h => by cases h }
  have plain : n.IsPlain :=
    ⟨spelled, minusSign_ne_plus _, by simp [n, Decimal.chars], by simp [n], rfl⟩
  refine ⟨n, plain, ?_, rfl, negative_minusSign _ _ _ _, ?_⟩
  · simp [n, Numeral.chars, Numeral.tail, Numeral.exponentChars, Decimal.positional, he]
  · rw [Decimal.value_ratio, zpow_of_nonneg 10 he]
    simp [n, Numeral.value, Numeral.fractionDigits, Numeral.exponentValue, digitsValue_append,
      Decimal.chars]

/-- **A decimal in positional notation is a plain decimal number.** It has a point exactly if the
last of its digits stands behind it. -/
theorem exists_plain_of_positional (hd : d.digits ≠ 0) (negative : Bool) :
    ∃ n : Numeral, n.IsPlain ∧ n.chars = (minusSign negative).toList ++ d.positional ∧
      (n.fraction.isSome = true ↔ d.exponent < 0) ∧ n.negative = negative ∧
      n.value = d.ratio.value := by
  rcases Int.lt_or_le d.exponent 0 with he | he
  · obtain ⟨n, hn, hfraction, hexponent, hchars⟩ := exists_numeral_of_pointed hd he negative
    have plain := isPlain_of_wellFormed hn.isReal.spelled hn.isReal.wellFormed hexponent
    exact ⟨n, plain, hchars, iff_of_true hfraction he, hn.negative, hn.value⟩
  · obtain ⟨n, plain, hchars, hfraction, hnegative, hvalue⟩ := exists_plain_of_whole he negative
    refine ⟨n, plain, hchars, iff_of_false ?_ (by omega), hnegative, hvalue⟩
    rw [hfraction]
    exact Bool.false_ne_true

end ScriptStore
