import ScriptStore.Json.Number
import ScriptStore.Proofs.Number.Double
import ScriptStore.Proofs.Number.Integer
import ScriptStore.Proofs.Number.Shortest

/-!
# Numbers of documents read back

* `Numeral.value` — the number that a numeral writes, and `Numeral.toFloat_eq` — the double nearest
  to it.
* `Json.ofText?_int64Text` — an integer reads back.
* `Json.exists_numeral` — **a finite double is written as a numeral that is no integer and to which
  it is nearest**.
* `Json.ReadsNearest` — a reader that takes the nearest double, and
  `Json.ReadsNearest.ofText?_floatText` — it reads every finite double back.
-/

namespace ScriptStore

open Binary64

/-- The number that a numeral writes, without its sign. -/
def Numeral.value (n : Numeral) : ℚ :=
  digitsValue (n.whole ++ n.fractionDigits) *
    10 ^ (n.exponentValue - n.fractionDigits.length)

/-- A numeral is read as the double nearest to what it writes. -/
theorem Numeral.toFloat_eq {n : Numeral} {x : Ratio} (hx : 0 < x.den) (h : n.value = x.value) :
    n.toFloat = nearest n.negative x := by
  rw [toFloat, nearestDecimal_eq, nearest, nearest,
    nearestBits_congr (Ratio.den_ofScaled_pos (by norm_num)) hx
      ((Ratio.value_ofScaled _ 10 _).trans h)]

namespace Json

variable {c : Char} {ds whole : List Char} {fraction : Option (List Char)} {n : Numeral} {k : Nat}
  {f : Float} {text : List Char} {read : FloatReader}

/-! ## Signs and first digits -/

/-- The sign that is written. -/
def minusSign (negative : Bool) : Option Char := if negative then some '-' else none

theorem isSign_minusSign (negative : Bool) : IsSign (minusSign negative) := by
  cases negative
  · exact .inl rfl
  · exact .inr (.inr rfl)

theorem minusSign_ne_plus (negative : Bool) : minusSign negative ≠ some '+' := by
  cases negative <;> decide

theorem negative_minusSign (negative : Bool) (whole : List Char) (fraction : Option (List Char))
    (exponent : Option WrittenExponent) :
    Numeral.negative ⟨minusSign negative, whole, fraction, exponent⟩ = negative := by
  cases negative <;> rfl

theorem plainWhole_of_head (h : ds ≠ []) (hhead : ds.head? ≠ some '0') : plainWhole ds = true := by
  cases ds with
  | nil => exact absurd rfl h
  | cons c ds =>
    have hc : c ≠ '0' := fun heq => hhead (by rw [heq]; rfl)
    unfold plainWhole
    split
    · rename_i heq
      cases heq
    · rfl
    · rename_i heq
      cases heq
      exact decide_eq_true hc

theorem plainWhole_toDigits (k : Nat) : plainWhole (Nat.toDigits 10 k) = true := by
  by_cases h : k = 0
  · subst h
    rfl
  · exact plainWhole_of_head Nat.toDigits_ne_nil (head?_toDigits_ne h)

/-! ## Integers -/

/-- The numeral of an integer. -/
def integerNumeral (i : Int) : Numeral :=
  ⟨minusSign (i < 0), Nat.toDigits 10 i.natAbs, none, none⟩

theorem spelled_integerNumeral (i : Int) : (integerNumeral i).Spelled where
  sign := isSign_minusSign _
  whole := areDigits_toDigits _
  fraction := fun _ h => absurd h List.not_mem_nil
  exponentSign := fun _ h => by cases h
  exponentDigits := fun _ h => by cases h

theorem wellFormed_integerNumeral (i : Int) : wellFormed (integerNumeral i) = true := by
  simp [wellFormed, integerNumeral, minusSign_ne_plus, plainWhole_toDigits,
    Numeral.exponentComplete]

theorem toList_int64Text (i : Int64) :
    (int64Text i).toList = (integerNumeral i.toInt).chars := by
  have hchars : (integerNumeral i.toInt).chars =
      (minusSign (i.toInt < 0)).toList ++ Nat.toDigits 10 i.toInt.natAbs := by
    rw [← List.append_nil (Nat.toDigits 10 _)]
    rfl
  have hsign : minusSign (i.toInt < 0) = if i.toInt < 0 then some '-' else none := by
    simp [minusSign]
  rw [hchars, hsign, chars_int64Text]

theorem integer?_integerNumeral (i : Int64) : integer? (integerNumeral i.toInt) = some i := by
  have hback : int64OfInt? i.toInt = some i := int64OfInt?_eq_some_iff.mpr rfl
  simp only [integer?, integerNumeral, negative_minusSign, Option.isNone_none, Bool.and_self,
    if_true, digitsValue_toDigits, decide_eq_true_eq]
  by_cases hneg : i.toInt < 0
  · rw [if_pos hneg, if_neg (by omega), show -(i.toInt.natAbs : Int) = i.toInt by omega, hback]
  · rw [if_neg hneg, show (i.toInt.natAbs : Int) = i.toInt by omega, hback]

/-- A numeral in the range of integers is read as one. -/
theorem ofText?_chars_of_integer (read : FloatReader) (spelled : n.Spelled)
    (formed : wellFormed n = true) {i : Int64} (h : integer? n = some i) :
    Number.ofText? read n.chars = some (.integer i) := by
  simp only [Number.ofText?, Numeral.scan_chars spelled, List.isEmpty_nil, formed, Bool.and_self,
    if_true, h]

/-- Any other numeral is read as a double. -/
theorem ofText?_chars_of_real (read : FloatReader) (spelled : n.Spelled)
    (formed : wellFormed n = true) (h : integer? n = none) :
    Number.ofText? read n.chars = (read n).map .float := by
  simp only [Number.ofText?, Numeral.scan_chars spelled, List.isEmpty_nil, formed, Bool.and_self,
    if_true, h]

/-- **An integer reads back.** -/
theorem ofText?_int64Text (read : FloatReader) (i : Int64) :
    Number.ofText? read (int64Text i).toList = some (.integer i) := by
  rw [toList_int64Text]
  exact ofText?_chars_of_integer read (spelled_integerNumeral _) (wellFormed_integerNumeral _)
    (integer?_integerNumeral i)

/-! ## Doubles -/

/-- A numeral that a document may have and that is never an integer. -/
structure IsReal (n : Numeral) : Prop where
  spelled : n.Spelled
  wellFormed : wellFormed n = true
  real : n.fraction.isSome ∨ n.exponent.isSome

theorem IsReal.integer? (real : IsReal n) : integer? n = none := by
  unfold Json.integer?
  refine if_neg fun h => ?_
  obtain ⟨hfraction, hexponent⟩ := Bool.and_eq_true_iff.mp h
  rcases real.real with hsome | hsome
  · rw [Option.isNone_iff_eq_none.mp hfraction] at hsome
    cases hsome
  · rw [Option.isNone_iff_eq_none.mp hexponent] at hsome
    cases hsome

/-- Digits before and after a point as a document has them. -/
structure Halves (whole : List Char) (fraction : Option (List Char)) : Prop where
  wholeDigits : AreDigits whole
  fractionDigits : AreDigits (fraction.getD [])
  plain : plainWhole whole = true
  complete : fraction ≠ some []

theorem Halves.isReal (halves : Halves whole fraction) (exponent : Option WrittenExponent)
    (sign : ∀ e, exponent = some e → IsSign e.sign)
    (digits : ∀ e, exponent = some e → AreDigits e.digits ∧ e.digits ≠ [])
    (real : fraction.isSome ∨ exponent.isSome) (negative : Bool) :
    IsReal ⟨minusSign negative, whole, fraction, exponent⟩ where
  spelled := ⟨isSign_minusSign _, halves.wholeDigits, halves.fractionDigits, sign,
    fun e he => (digits e he).1⟩
  wellFormed := by
    have hcomplete : Numeral.exponentComplete
        ⟨minusSign negative, whole, fraction, exponent⟩ = true := by
      unfold Numeral.exponentComplete
      cases exponent with
      | none => rfl
      | some e => simpa using (digits e rfl).2
    simp [Json.wellFormed, minusSign_ne_plus, halves.plain, halves.complete, hcomplete]
  real := real

/-- What stands before the point begins with the first digit, or is the zero that is put there. -/
theorem plainWhole_take (hk : k ≠ 0) (places : Nat) :
    let padded := List.replicate (places + 1 - (Nat.toDigits 10 k).length) '0' ++ Nat.toDigits 10 k
    plainWhole (padded.take (padded.length - places)) = true := by
  intro padded
  by_cases hshort : (Nat.toDigits 10 k).length ≤ places
  · have hpadded : padded = '0' ::
        (List.replicate (places - (Nat.toDigits 10 k).length) '0' ++ Nat.toDigits 10 k) := by
      have hcount : places + 1 - (Nat.toDigits 10 k).length =
          places - (Nat.toDigits 10 k).length + 1 := by omega
      simp only [padded, hcount, List.replicate_succ, List.cons_append]
    have hlength : padded.length - places = 1 := by
      simp only [padded, List.length_append, List.length_replicate]
      omega
    rw [hlength, hpadded]
    rfl
  · have hpadded : padded = Nat.toDigits 10 k := by
      have hnone : places + 1 - (Nat.toDigits 10 k).length = 0 := by omega
      simp only [padded, hnone, List.replicate_zero, List.nil_append]
    rw [hpadded]
    refine plainWhole_of_head ?_ ?_
    · rw [ne_eq, List.take_eq_nil_iff]
      exact not_or.mpr ⟨by omega, Nat.toDigits_ne_nil⟩
    · rw [List.head?_take, if_neg (by omega)]
      exact head?_toDigits_ne hk

/-- The digits of a number with a point among them are two halves. -/
theorem exists_halves (hk : k ≠ 0) (places : Nat) : ∃ whole fraction, Halves whole fraction ∧
    Decimal.pointed (Nat.toDigits 10 k) places =
      whole ++ fraction.elim [] (fun ds => '.' :: ds) ∧
    (fraction.getD []).length = places ∧ digitsValue (whole ++ fraction.getD []) = k := by
  have hplain := plainWhole_take hk places
  unfold Decimal.pointed
  by_cases hplaces : places = 0
  · subst hplaces
    have hnone : 0 + 1 - (Nat.toDigits 10 k).length = 0 := by
      have : 0 < (Nat.toDigits 10 k).length := Nat.length_toDigits_pos
      omega
    refine ⟨Nat.toDigits 10 k, none, ⟨areDigits_toDigits k, fun _ h => absurd h List.not_mem_nil,
      plainWhole_toDigits k, by simp⟩, ?_, rfl, ?_⟩
    · simp [hnone]
    · simp
  · simp only at hplain
    simp only [if_neg hplaces]
    set padded := List.replicate (places + 1 - (Nat.toDigits 10 k).length) '0' ++
      Nat.toDigits 10 k with hpadded
    have hdigits : AreDigits padded := (areDigits_replicate _).append (areDigits_toDigits k)
    have hvalue : digitsValue padded = k := by
      rw [hpadded, digitsValue_append, digitsValue_replicate, Nat.zero_mul, Nat.zero_add,
        digitsValue_toDigits]
    have hlength : (padded.drop (padded.length - places)).length = places := by
      have : places < padded.length := by
        simp only [hpadded, List.length_append, List.length_replicate]
        omega
      rw [List.length_drop]
      omega
    refine ⟨padded.take (padded.length - places), some (padded.drop (padded.length - places)),
      ⟨hdigits.mono (List.take_subset _ _), hdigits.mono (List.drop_subset _ _), hplain, ?_⟩,
      rfl, hlength, ?_⟩
    · intro hempty
      rw [Option.some.inj hempty] at hlength
      exact hplaces hlength.symm
    · rw [Option.getD_some, List.take_append_drop, hvalue]

/-- A numeral that writes a number as a double, with a sign if the number is negative. -/
structure WritesReal (n : Numeral) (negative : Bool) (x : ℚ) : Prop where
  isReal : IsReal n
  negative : n.negative = negative
  value : n.value = x

variable {d : Decimal}

/-- Digits and zeros before the point, and a zero behind it. -/
theorem exists_numeral_of_whole (hd : d.digits ≠ 0) (he : 0 ≤ d.exponent) (negative : Bool) :
    ∃ n, WritesReal n negative d.ratio.value ∧
      n.chars = (minusSign negative).toList ++ (d.positional ++ ['.', '0']) := by
  have hplain : plainWhole (d.chars ++ List.replicate d.exponent.toNat '0') = true := by
    refine plainWhole_of_head (by simp [Decimal.chars]) ?_
    have hhead := head?_toDigits_ne hd
    rw [Decimal.chars, List.head?_append]
    cases hds : Nat.toDigits 10 d.digits with
    | nil => exact absurd hds Nat.toDigits_ne_nil
    | cons c ds =>
      rw [hds] at hhead
      exact hhead
  have halves : Halves (d.chars ++ List.replicate d.exponent.toNat '0') (some ['0']) :=
    ⟨(areDigits_toDigits _).append (areDigits_replicate _), areDigits_replicate 1, hplain, by simp⟩
  have hreal := halves.isReal none (fun _ h => by cases h) (fun _ h => by cases h)
    (.inl rfl) negative
  refine ⟨_, ⟨hreal, negative_minusSign _ _ _ _, ?_⟩, ?_⟩
  · have hzero : digitsValue ['0'] = 0 := rfl
    rw [Decimal.value_ratio, zpow_of_nonneg 10 he]
    simp [Numeral.value, Numeral.fractionDigits, Numeral.exponentValue, digitsValue_append,
      Decimal.chars, hzero, pow_succ, mul_assoc]
  · simp [Numeral.chars, Numeral.tail, Numeral.exponentChars, Decimal.positional, he]

/-- Digits with a point among them. -/
theorem exists_numeral_of_pointed (hd : d.digits ≠ 0) (he : d.exponent < 0) (negative : Bool) :
    ∃ n, WritesReal n negative d.ratio.value ∧ n.fraction.isSome = true ∧ n.exponent = none ∧
      n.chars = (minusSign negative).toList ++ d.positional := by
  obtain ⟨whole, fraction, halves, htext, hlength, hvalue⟩ :=
    exists_halves hd (-d.exponent).toNat
  have hsome : fraction.isSome := by
    cases fraction with
    | some _ => rfl
    | none =>
      rw [Option.getD_none, List.length_nil] at hlength
      omega
  have hreal := halves.isReal none (fun _ h => by cases h) (fun _ h => by cases h)
    (.inl hsome) negative
  refine ⟨_, ⟨hreal, negative_minusSign _ _ _ _, ?_⟩, hsome, rfl, ?_⟩
  · have hexponent : (0 : Int) - (fraction.getD []).length = d.exponent := by omega
    rw [Decimal.value_ratio]
    simp only [Numeral.value, Numeral.fractionDigits, Numeral.exponentValue, hvalue, hexponent]
  · have hpositional : d.positional = whole ++ fraction.elim [] (fun ds => '.' :: ds) := by
      rw [Decimal.positional, if_neg (by omega), Decimal.chars, htext]
    simp [Numeral.chars, Numeral.tail, Numeral.exponentChars, hpositional]

/-- One digit before the point, and an exponent. -/
theorem exists_numeral_of_scientific (hd : d.digits ≠ 0) (negative : Bool) :
    ∃ n, WritesReal n negative d.ratio.value ∧
      n.chars = (minusSign negative).toList ++ (d.scientific ++ 'e' ::
        (if 0 ≤ d.scientificExponent then '+' else '-') ::
          Nat.toDigits 10 d.scientificExponent.natAbs) := by
  obtain ⟨whole, fraction, halves, htext, hlength, hvalue⟩ :=
    exists_halves hd (d.chars.length - 1)
  let written : WrittenExponent :=
    ⟨some (if 0 ≤ d.scientificExponent then '+' else '-'),
      Nat.toDigits 10 d.scientificExponent.natAbs⟩
  have hsign : IsSign written.sign := by
    simp only [written]
    split
    · exact .inr (.inl rfl)
    · exact .inr (.inr rfl)
  have hreal := halves.isReal (some written) (fun _ h => by cases h; exact hsign)
    (fun _ h => by cases h; exact ⟨areDigits_toDigits _, Nat.toDigits_ne_nil⟩) (.inr rfl) negative
  refine ⟨_, ⟨hreal, negative_minusSign _ _ _ _, ?_⟩, ?_⟩
  · have hwritten : Numeral.exponentValue ⟨minusSign negative, whole, fraction, some written⟩ =
        d.scientificExponent := by
      simp only [Numeral.exponentValue, written, Option.some.injEq, digitsValue_toDigits]
      by_cases he : 0 ≤ d.scientificExponent
      · rw [if_pos he, if_neg (by decide)]
        omega
      · rw [if_neg he, if_pos rfl]
        omega
    have hpos : 0 < d.chars.length := Nat.length_toDigits_pos
    have hexponent : d.scientificExponent - (fraction.getD []).length = d.exponent := by
      rw [hlength, Decimal.scientificExponent]
      omega
    rw [Decimal.value_ratio]
    simp only [Numeral.value, Numeral.fractionDigits, hwritten, hvalue, hexponent]
  · have hscientific : d.scientific = whole ++ fraction.elim [] (fun ds => '.' :: ds) := by
      rw [Decimal.scientific, ← htext, Decimal.chars]
    simp [Numeral.chars, Numeral.tail, Numeral.exponentChars, WrittenExponent.chars, hscientific,
      written]

/-- A decimal is written as a numeral of its number. -/
theorem exists_numeral_of_decimalText (hd : d.digits ≠ 0) (negative : Bool) :
    ∃ n, WritesReal n negative d.ratio.value ∧
      n.chars = (minusSign negative).toList ++ decimalText d := by
  unfold decimalText
  simp only
  split
  · split
    · rename_i he
      exact exists_numeral_of_whole hd he negative
    · rename_i he
      obtain ⟨n, hn, -, -, hchars⟩ := exists_numeral_of_pointed hd (by omega) negative
      exact ⟨n, hn, hchars⟩
  · exact exists_numeral_of_scientific hd negative

/-- **A finite double is written as a numeral that is no integer and to which it is nearest.** -/
theorem exists_numeral (h : floatText? f = some text) :
    ∃ n, IsReal n ∧ n.chars = text ∧ n.toFloat = f := by
  unfold floatText? at h
  split at h
  case h_2 => cases h
  case h_1 negative m hshape =>
    have hnearest := nearest_ratio hshape
    have hchars : ∀ magnitude : List Char, text =
        (if negative then '-' :: magnitude else magnitude) →
          text = (minusSign negative).toList ++ magnitude := by
      intro magnitude htext
      cases negative <;> exact htext
    by_cases hzero : m.significand = 0
    · have halves : Halves ['0'] (some ['0']) :=
        ⟨areDigits_replicate 1, areDigits_replicate 1, rfl, by simp⟩
      have hreal := halves.isReal none (fun _ h => by cases h) (fun _ h => by cases h) (.inl rfl)
        negative
      rw [if_pos hzero] at h
      refine ⟨_, hreal, (hchars _ (Option.some.inj h).symm).symm, ?_⟩
      have hvalue : Numeral.value ⟨minusSign negative, ['0'], some ['0'], none⟩ =
          m.ratio.value := by
        have hdigits : digitsValue (['0'] ++ ['0']) = 0 := rfl
        rw [m.value_ratio, hzero, Numeral.value]
        simp only [Numeral.fractionDigits, Option.getD_some, hdigits, Nat.cast_zero, zero_mul]
      rw [Numeral.toFloat_eq m.den_ratio_pos hvalue, negative_minusSign, hnearest]
    · rw [if_neg hzero] at h
      have hback := Decimal.nearestBits_shortest .even m
      have hd : (Decimal.shortest .even m).digits ≠ 0 :=
        Decimal.digits_shortest_ne_zero .even fun hbits =>
          hzero (significand_eq_zero hshape hbits)
      obtain ⟨n, hn, htext⟩ := exists_numeral_of_decimalText hd negative
      refine ⟨n, hn.isReal, htext.trans (hchars _ (Option.some.inj h).symm).symm, ?_⟩
      rw [Numeral.toFloat_eq (Decimal.den_ratio_pos _) hn.value, hn.negative, nearest, hback,
        ← nearest, hnearest]

/-- The finite doubles are those that documents have. -/
theorem isSome_floatText?_iff : (floatText? f).isSome ↔ f.isFinite = true := by
  rw [isFinite_iff]
  unfold floatText?
  split
  case h_1 negative m hshape => exact ⟨fun _ => ⟨negative, m, hshape⟩, fun _ => rfl⟩
  case h_2 hshape =>
    exact ⟨fun h => absurd h (by decide), fun ⟨negative, m, h⟩ => absurd h (hshape _ _)⟩

/-! ## Readers of doubles -/

/-- The double nearest to a numeral, and none if that is infinite. -/
def nearestFloat? : FloatReader := fun n => if n.toFloat.isFinite then some n.toFloat else none

/-- Every numeral that a document may have is read as the double nearest to it. -/
def ReadsNearest (read : FloatReader) : Prop :=
  ∀ n, wellFormed n = true → read n = nearestFloat? n

/-- The double is read as itself where it is written. -/
def ReadsBack (read : FloatReader) (f : Float) : Prop :=
  ∃ text, floatText? f = some text ∧ Number.ofText? read text = some (.float f)

/-- The double that a number is, if it is one. -/
def Number.float? : Number → Option Float
  | .float f => some f
  | .integer _ => none

theorem readsBack_iff : ReadsBack read f ↔
    ((floatText? f).bind fun text => (Number.ofText? read text).bind Number.float?).map
      Float.toBits = some f.toBits := by
  constructor
  · rintro ⟨text, htext, hback⟩
    rw [htext, Option.bind_some, hback]
    rfl
  · intro h
    obtain ⟨g, hg, hbits⟩ := Option.map_eq_some_iff.mp h
    obtain ⟨text, htext, hg⟩ := Option.bind_eq_some_iff.mp hg
    obtain ⟨n, hn, hg⟩ := Option.bind_eq_some_iff.mp hg
    refine ⟨text, htext, ?_⟩
    cases n with
    | integer n => cases hg
    | float g' => rw [hn, Option.some.inj hg, Float.toBits_inj.mp hbits]

instance : Decidable (ReadsBack read f) := decidable_of_iff _ readsBack_iff.symm

/-- **A reader that takes the nearest double reads every finite double back.** -/
theorem ReadsNearest.readsBack (nearest : ReadsNearest read) (finite : f.isFinite = true) :
    ReadsBack read f := by
  obtain ⟨text, htext⟩ := Option.isSome_iff_exists.mp (isSome_floatText?_iff.mpr finite)
  obtain ⟨n, hreal, rfl, hback⟩ := exists_numeral htext
  refine ⟨_, htext, ?_⟩
  rw [ofText?_chars_of_real read hreal.spelled hreal.wellFormed hreal.integer?,
    nearest n hreal.wellFormed, nearestFloat?, hback, if_pos finite]
  rfl

/-- The reader of documents does not always take the nearest double: some that have as many digits
as a double can have are read as one next to them. -/
theorem not_readsNearest_scaledFloat? : ¬ReadsNearest scaledFloat? := by
  have hback : ¬ReadsBack scaledFloat? 1.3650341565151727 := by decide +kernel
  exact fun nearest => hback (nearest.readsBack (by decide +kernel))

/-- A reader that takes the nearest double reads finite doubles only. -/
theorem ReadsNearest.isFinite (nearest : ReadsNearest read)
    (h : Number.ofText? read text = some (.float f)) : f.isFinite = true := by
  unfold Number.ofText? at h
  simp only at h
  split at h
  · rename_i hformed
    split at h
    · cases h
    · rw [nearest _ (Bool.and_eq_true_iff.mp hformed).2, nearestFloat?] at h
      split at h
      · rename_i hfinite
        cases h
        exact hfinite
      · cases h
  · cases h

/-- The text of a double has the characters of numerals. -/
theorem isNumeric_of_floatText (h : floatText? f = some text) : ∀ c ∈ text, IsNumeric c := by
  obtain ⟨n, hreal, rfl, -⟩ := exists_numeral h
  exact hreal.spelled.isNumeric

theorem isNumeric_of_int64Text (i : Int64) : ∀ c ∈ (int64Text i).toList, IsNumeric c := by
  rw [toList_int64Text]
  exact (spelled_integerNumeral _).isNumeric

end Json

end ScriptStore
