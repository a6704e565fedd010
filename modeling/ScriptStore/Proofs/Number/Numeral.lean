import Mathlib.Data.List.TakeWhile
import ScriptStore.Number.Reading

/-!
# Numerals as they are written

* `digitsValue_toDigits` — the digits of a natural number have its value.
* `Numeral.chars` — a numeral as text, and `Numeral.scan_chars` — **a scan finds the numeral that
  was written**.
-/

namespace ScriptStore

variable {n : Nat} {c : Char} {as bs ds rest : List Char} {sign : Option Char}

/-! ## Digits -/

/-- A row of decimal digits. -/
def AreDigits (ds : List Char) : Prop := ∀ c ∈ ds, c.isDigit = true

theorem areDigits_toDigits (n : Nat) : AreDigits (Nat.toDigits 10 n) :=
  fun _ h => Nat.isDigit_of_mem_toDigits (by decide) (by decide) h

theorem areDigits_replicate (n : Nat) : AreDigits (List.replicate n '0') := fun c h => by
  rw [List.eq_of_mem_replicate h]
  rfl

theorem AreDigits.append (has : AreDigits as) (hbs : AreDigits bs) : AreDigits (as ++ bs) :=
  fun c h => (List.mem_append.mp h).elim (has c) (hbs c)

theorem AreDigits.mono (hbs : AreDigits bs) (h : as ⊆ bs) : AreDigits as := fun c hc => hbs c (h hc)

theorem digitsValue_eq (ds : List Char) : digitsValue ds = Nat.ofDigitChars 10 ds 0 := by
  have hstep : (fun n c => n * 10 + digitValue c) =
      fun n (c : Char) => 10 * n + (c.toNat - '0'.toNat) := by
    funext n c
    rw [Nat.mul_comm, digitValue]
  rw [digitsValue, hstep, Nat.ofDigitChars]

@[simp] theorem digitsValue_toDigits (n : Nat) : digitsValue (Nat.toDigits 10 n) = n := by
  rw [digitsValue_eq, Nat.ofDigitChars_ten_toDigits]

theorem digitsValue_append (as bs : List Char) :
    digitsValue (as ++ bs) = digitsValue as * 10 ^ bs.length + digitsValue bs := by
  rw [digitsValue_eq, digitsValue_eq, digitsValue_eq, Nat.ofDigitChars_append,
    Nat.ofDigitChars_eq_ofDigitChars_zero, Nat.mul_comm]

@[simp] theorem digitsValue_replicate (n : Nat) : digitsValue (List.replicate n '0') = 0 := by
  rw [digitsValue_eq, Nat.ofDigitChars_replicate_zero, Nat.mul_zero]

/-- The first digit of a number other than zero is not zero. -/
theorem head?_toDigits_ne (h : n ≠ 0) : (Nat.toDigits 10 n).head? ≠ some '0' := by
  induction n using Nat.strongRecOn with
  | ind n ih =>
    rcases Nat.lt_or_ge n 10 with hlt | hge
    · have hchar : ∀ d < 10, d ≠ 0 → Nat.digitChar d ≠ '0' := by decide
      rw [Nat.toDigits_of_lt_base hlt, List.head?_cons]
      exact fun heq => hchar n hlt h (Option.some.inj heq)
    · have hrest := ih (n / 10) (by omega) (by omega)
      rw [Nat.toDigits_of_base_le (by decide) hge]
      cases hds : Nat.toDigits 10 (n / 10) with
      | nil => exact absurd hds Nat.toDigits_ne_nil
      | cons d ds =>
        rw [hds] at hrest
        exact hrest

/-! ## Parts in front of the rest -/

theorem takeWhile_digits (hds : AreDigits ds) (hrest : ∀ c ∈ rest.head?, c.isDigit = false) :
    (ds ++ rest).takeWhile Char.isDigit = ds := by
  rw [List.takeWhile_append_of_pos hds]
  cases rest with
  | nil => rw [List.takeWhile_nil, List.append_nil]
  | cons c rest =>
    have hc := hrest c rfl
    rw [List.takeWhile_cons_of_neg (by rw [hc]; exact Bool.false_ne_true), List.append_nil]

theorem dropWhile_digits (hds : AreDigits ds) (hrest : ∀ c ∈ rest.head?, c.isDigit = false) :
    (ds ++ rest).dropWhile Char.isDigit = rest := by
  rw [List.dropWhile_append_of_pos hds]
  cases rest with
  | nil => rfl
  | cons c rest =>
    have hc := hrest c rfl
    rw [List.dropWhile_cons_of_neg (by rw [hc]; exact Bool.false_ne_true)]

theorem not_isDigit_of_head?_nil : ∀ c ∈ ([] : List Char).head?, c.isDigit = false := by simp

/-- A sign, or none. -/
def IsSign (sign : Option Char) : Prop := sign = none ∨ sign = some '+' ∨ sign = some '-'

theorem not_sign_of_isDigit (h : c.isDigit = true) : c ≠ '+' ∧ c ≠ '-' := by
  constructor
  · rintro rfl
    cases h
  · rintro rfl
    cases h

theorem takeSign_append (hsign : IsSign sign)
    (hrest : ∀ c ∈ rest.head?, c ≠ '+' ∧ c ≠ '-') :
    takeSign (sign.toList ++ rest) = (sign, rest) := by
  rcases hsign with rfl | rfl | rfl
  · simp only [Option.toList_none, List.nil_append]
    unfold takeSign
    split
    · exact absurd rfl (hrest '+' rfl).1
    · exact absurd rfl (hrest '-' rfl).2
    · rfl
  · rfl
  · rfl

/-! ## Whole numerals -/

/-- A character of a numeral. -/
def IsNumeric (c : Char) : Prop := c.isDigit = true ∨ c ∈ ['.', 'e', '+', '-']

instance : DecidablePred IsNumeric := fun c =>
  inferInstanceAs (Decidable (c.isDigit = true ∨ c ∈ ['.', 'e', '+', '-']))

theorem AreDigits.isNumeric (hds : AreDigits ds) : ∀ c ∈ ds, IsNumeric c :=
  fun c hc => .inl (hds c hc)

theorem IsSign.isNumeric (hsign : IsSign sign) : ∀ c ∈ sign.toList, IsNumeric c := by
  rcases hsign with rfl | rfl | rfl <;> simp [IsNumeric]

/-- An exponent as text. -/
def WrittenExponent.chars (e : WrittenExponent) : List Char := 'e' :: (e.sign.toList ++ e.digits)

namespace Numeral

variable {n : Numeral}

/-- The written exponent, as text. -/
def exponentChars (n : Numeral) : List Char := n.exponent.elim [] WrittenExponent.chars

/-- What comes after the digits before the point, as text. -/
def tail (n : Numeral) : List Char :=
  (n.fraction.elim [] fun ds => '.' :: ds) ++ n.exponentChars

/-- A numeral as text. -/
def chars (n : Numeral) : List Char := n.sign.toList ++ (n.whole ++ n.tail)

/-- The parts of the numeral are signs and digits. -/
structure Spelled (n : Numeral) : Prop where
  sign : IsSign n.sign
  whole : AreDigits n.whole
  fraction : AreDigits n.fractionDigits
  exponentSign : ∀ e, n.exponent = some e → IsSign e.sign
  exponentDigits : ∀ e, n.exponent = some e → AreDigits e.digits

theorem head?_exponentChars (h : c ∈ n.exponentChars.head?) : c = 'e' := by
  unfold exponentChars at h
  cases he : n.exponent with
  | none =>
    rw [he] at h
    cases h
  | some e =>
    rw [he] at h
    exact (Option.some.inj h).symm

theorem head?_tail (h : c ∈ n.tail.head?) : c = '.' ∨ c = 'e' := by
  unfold tail at h
  cases hf : n.fraction with
  | some ds =>
    rw [hf] at h
    exact .inl (Option.some.inj h).symm
  | none =>
    rw [hf] at h
    exact .inr (head?_exponentChars h)

theorem takeExponent_exponentChars (h : n.Spelled) :
    takeExponent n.exponentChars = (n.exponent, []) := by
  unfold exponentChars
  cases he : n.exponent with
  | none => rfl
  | some e =>
    have hdigits := h.exponentDigits e he
    have hhead : ∀ c ∈ e.digits.head?, c ≠ '+' ∧ c ≠ '-' := fun c hc =>
      not_sign_of_isDigit (hdigits c (List.mem_of_mem_head? hc))
    have htake := takeWhile_digits hdigits not_isDigit_of_head?_nil
    have hdrop := dropWhile_digits hdigits not_isDigit_of_head?_nil
    rw [List.append_nil] at htake hdrop
    simp only [Option.elim_some, WrittenExponent.chars, takeExponent, true_or, if_true,
      takeSign_append (h.exponentSign e he) hhead, htake, hdrop]

theorem takeFraction_tail (h : n.Spelled) :
    takeFraction n.tail = (n.fraction, n.exponentChars) := by
  have hdigits := h.fraction
  unfold fractionDigits at hdigits
  unfold tail
  have hhead : ∀ c ∈ n.exponentChars.head?, c.isDigit = false := fun c hc => by
    rw [head?_exponentChars hc]
    rfl
  cases hf : n.fraction with
  | some ds =>
    rw [hf, Option.getD_some] at hdigits
    simp only [Option.elim_some, List.cons_append, takeFraction, takeWhile_digits hdigits hhead,
      dropWhile_digits hdigits hhead]
  | none =>
    simp only [Option.elim_none, List.nil_append]
    unfold takeFraction
    split
    · rename_i rest hchars
      have hc : '.' ∈ n.exponentChars.head? := by rw [hchars]; rfl
      exact absurd (head?_exponentChars hc) (by decide)
    · rfl

/-- **A scan finds the numeral that was written.** -/
theorem scan_chars (h : n.Spelled) : scan n.chars = (n, []) := by
  have htail : ∀ c ∈ n.tail.head?, c.isDigit = false := fun c hc => by
    rcases head?_tail hc with rfl | rfl <;> rfl
  have hhead : ∀ c ∈ (n.whole ++ n.tail).head?, c ≠ '+' ∧ c ≠ '-' := by
    intro c hc
    cases hw : n.whole with
    | nil =>
      rw [hw] at hc
      rcases head?_tail hc with rfl | rfl <;> decide
    | cons d ds =>
      have hd : d.isDigit = true := h.whole d (by rw [hw]; exact List.mem_cons_self ..)
      rw [hw] at hc
      cases hc
      exact not_sign_of_isDigit hd
  simp only [scan, chars, takeSign_append h.sign hhead, takeWhile_digits h.whole htail,
    dropWhile_digits h.whole htail, takeFraction_tail h, takeExponent_exponentChars h]

/-- A numeral has no other characters. -/
theorem Spelled.isNumeric (h : n.Spelled) : ∀ c ∈ n.chars, IsNumeric c := by
  have hfraction : ∀ c ∈ n.fraction.elim [] (fun ds => '.' :: ds), IsNumeric c := by
    have hdigits := h.fraction
    unfold fractionDigits at hdigits
    cases hf : n.fraction with
    | none => simp
    | some ds =>
      rw [hf, Option.getD_some] at hdigits
      exact List.forall_mem_cons.mpr ⟨.inr (by decide), hdigits.isNumeric⟩
  have hexponent : ∀ c ∈ n.exponentChars, IsNumeric c := by
    unfold exponentChars
    cases he : n.exponent with
    | none => simp
    | some e =>
      refine List.forall_mem_cons.mpr ⟨.inr (by decide), List.forall_mem_append.mpr ⟨?_, ?_⟩⟩
      · exact (h.exponentSign e he).isNumeric
      · exact (h.exponentDigits e he).isNumeric
  refine List.forall_mem_append.mpr ⟨h.sign.isNumeric, List.forall_mem_append.mpr ⟨?_, ?_⟩⟩
  · exact h.whole.isNumeric
  · exact List.forall_mem_append.mpr ⟨hfraction, hexponent⟩

end Numeral

end ScriptStore
