import ScriptStore.Number.Reading

/-!
# Words of 64 bits

The sum, the product and the opposite of words wrap around. A checked operation notices it.

* `checkedNeg`, `checkedAdd`, `checkedMul` — a word, unless it has wrapped around. They are exactly
  what `int64OfInt?` says of integers without bounds (`checkedAdd_eq` and its neighbours).
* `saturatingAdd` — the sum, or the word that is nearest to it.
-/

namespace ScriptStore

variable {word : Int64} {exact : Int}

/-- A word that an operation has come to, unless it has wrapped around. -/
def checked (word : Int64) (exact : Int) : Option Int64 :=
  if word.toInt = exact then some word else none

/-- A word has not wrapped around exactly if there is a word for the exact number. -/
theorem checked_eq (h : word = Int64.ofInt exact) : checked word exact = int64OfInt? exact := by
  unfold checked int64OfInt?
  by_cases hrange : -2 ^ 63 ≤ exact ∧ exact < 2 ^ 63
  · have hexact : word.toInt = exact := by rw [h, Int64.toInt_ofInt_of_le hrange.1 hrange.2]
    rw [if_pos hrange, if_pos hexact, h]
  · have hwrapped : word.toInt ≠ exact := by
      have hge := word.le_toInt
      have hlt := word.toInt_lt
      omega
    rw [if_neg hrange, if_neg hwrapped]

/-- The opposite of a word, unless it has wrapped around. -/
def checkedNeg (a : Int64) : Option Int64 := checked (-a) (-a.toInt)

/-- The sum of words, unless it has wrapped around. -/
def checkedAdd (a b : Int64) : Option Int64 := checked (a + b) (a.toInt + b.toInt)

/-- The product of words, unless it has wrapped around. -/
def checkedMul (a b : Int64) : Option Int64 := checked (a * b) (a.toInt * b.toInt)

theorem checkedNeg_eq (a : Int64) : checkedNeg a = int64OfInt? (-a.toInt) := by
  apply checked_eq
  rw [Int64.ofInt_neg, Int64.ofInt_toInt]

theorem checkedAdd_eq (a b : Int64) : checkedAdd a b = int64OfInt? (a.toInt + b.toInt) := by
  apply checked_eq
  rw [Int64.ofInt_add, Int64.ofInt_toInt, Int64.ofInt_toInt]

theorem checkedMul_eq (a b : Int64) : checkedMul a b = int64OfInt? (a.toInt * b.toInt) := by
  apply checked_eq
  rw [Int64.ofInt_mul, Int64.ofInt_toInt, Int64.ofInt_toInt]

/-- The sum of words, or the greatest or least word if it would wrap around. -/
def saturatingAdd (a b : Int64) : Int64 :=
  (checkedAdd a b).getD (if a < 0 then Int64.minValue else Int64.maxValue)

/-- A sum that is not negative is cut off at the greatest word. -/
theorem toInt_saturatingAdd {a b : Int64} (ha : 0 ≤ a.toInt) (hb : 0 ≤ b.toInt) :
    (saturatingAdd a b).toInt = min (a.toInt + b.toInt) (2 ^ 63 - 1) := by
  rw [saturatingAdd, checkedAdd_eq, int64OfInt?]
  by_cases hsum : a.toInt + b.toInt < 2 ^ 63
  · rw [if_pos (by omega), Option.getD_some, Int64.toInt_ofInt_of_le (by omega) hsum]
    omega
  · have hpos : ¬ a < 0 := by
      rw [Int64.lt_iff_toInt_lt, Int64.toInt_zero]
      omega
    rw [if_neg (by omega), Option.getD_none, if_neg hpos, Int64.toInt_maxValue]
    omega

end ScriptStore
