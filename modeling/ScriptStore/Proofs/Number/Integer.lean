import ScriptStore.Proofs.Number.Numeral

/-!
# Integers as they are written

* `int64OfInt?_eq_some_iff` — an integer of 64 bits is found exactly if it is the integer itself.
* `readInt64?_int64Text` — **an integer reads back from its decimal text**.
-/

namespace ScriptStore

variable {i : Int} {n : Int64}

theorem int64OfInt?_eq_some_iff : int64OfInt? i = some n ↔ n.toInt = i := by
  unfold int64OfInt?
  constructor
  · intro h
    split at h
    · rename_i hi
      cases h
      exact Int64.toInt_ofInt_of_le hi.1 hi.2
    · cases h
  · rintro rfl
    rw [if_pos ⟨n.le_toInt, n.toInt_lt⟩, Int64.ofInt_toInt]

/-- The opposite of an integer is one, unless it is the least. -/
theorem exists_opposite_iff :
    (∃ opposite : Int64, opposite.toInt = -n.toInt) ↔ n ≠ Int64.minValue := by
  constructor
  · rintro ⟨opposite, h⟩ rfl
    have hlt := opposite.toInt_lt
    rw [h, Int64.toInt_minValue] at hlt
    omega
  · intro hne
    have hge := n.le_toInt
    have hlt := n.toInt_lt
    have hleast : n.toInt ≠ -2 ^ 63 := by
      intro h
      apply hne
      apply Int64.toInt_inj.mp
      rw [h, Int64.toInt_minValue]
    exact ⟨Int64.ofInt (-n.toInt), Int64.toInt_ofInt_of_le (by omega) (by omega)⟩

/-- An integer is written as its sign, if that is a minus, and its digits. -/
theorem chars_int64Text (n : Int64) : (int64Text n).toList =
    (if n.toInt < 0 then some '-' else none).toList ++ Nat.toDigits 10 n.toInt.natAbs := by
  rw [int64Text, Int.toString_eq_repr, Int.repr_eq_if]
  by_cases hneg : n.toInt < 0
  · rw [if_neg (by omega), if_pos hneg, String.toList_append, Nat.toList_repr,
      show (-n.toInt).toNat = n.toInt.natAbs by omega]
    rfl
  · rw [if_pos (by omega), if_neg hneg, Nat.toList_repr,
      show n.toInt.toNat = n.toInt.natAbs by omega]
    rfl

/-- **An integer reads back from its decimal text.** -/
theorem readInt64?_int64Text (n : Int64) : readInt64? (int64Text n) = some n := by
  have hdigits : (Nat.toDigits 10 n.toInt.natAbs).all Char.isDigit = true :=
    List.all_eq_true.mpr (areDigits_toDigits _)
  have hsome : (Nat.toDigits 10 n.toInt.natAbs).isEmpty = false :=
    List.isEmpty_eq_false_iff.mpr Nat.toDigits_ne_nil
  have hhead : ∀ c ∈ (Nat.toDigits 10 n.toInt.natAbs).head?, c ≠ '+' ∧ c ≠ '-' := by
    intro c hc
    exact not_sign_of_isDigit (areDigits_toDigits _ c (List.mem_of_mem_head? hc))
  have hsign : IsSign (if n.toInt < 0 then some '-' else none) := by
    split
    · exact .inr (.inr rfl)
    · exact .inl rfl
  have htake := takeSign_append hsign hhead
  rw [← chars_int64Text] at htake
  simp only [readInt64?, htake, hdigits, hsome, Bool.not_true, Bool.or_self, Bool.false_eq_true,
    if_false, digitsValue_toDigits]
  apply int64OfInt?_eq_some_iff.mpr
  by_cases hneg : n.toInt < 0
  · rw [if_pos hneg, if_pos rfl]
    omega
  · rw [if_neg hneg, if_neg (by simp)]
    omega

end ScriptStore
