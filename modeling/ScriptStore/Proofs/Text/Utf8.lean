import ScriptStore.Proofs.Text.Spelling

/-!
# Text survives as bytes

`decode` takes back what `encode` gives: the decoder has pending what has begun, and adds a character
once it is complete.

* `step_pending` — a byte inside of a character.
* `foldl_step_of_begun`, `foldl_step_char` — bytes that have begun a character, and those of a whole
  one.
* `decode_encode` — **the bytes of a text decode to the text**.
-/

namespace ScriptStore.Utf8

variable {b : UInt8} {bs : List UInt8} {p : Pending} {c : Char}

/-- A byte inside of a character. -/
theorem step_pending (chars : List Char) (p : Pending) (b : UInt8) :
    Decoder.step ⟨chars, some p⟩ b =
      match p.accept b with
      | .char c => ⟨c :: chars, none⟩
      | .lead q => ⟨chars, some q⟩
      | .invalid => Decoder.step ⟨replacement :: chars, none⟩ b := by
  unfold Decoder.step Pending.accept
  split
  · rename_i hnone
    cases hnone
  · rename_i q hsome
    cases hsome
    by_cases hrange : p.low ≤ b.toNat ∧ b.toNat ≤ p.high
    · simp only [if_pos hrange]
      split <;> rfl
    · simp only [if_neg hrange]

theorem begin_lead {chars : List Char} (h : start b = .lead p) :
    Decoder.step ⟨chars, none⟩ b = ⟨chars, some p⟩ := by
  simp only [Decoder.step, Decoder.begin, h]

/-- The decoder has pending what has begun. -/
theorem foldl_step_of_begun (chars : List Char) (h : begun bs = .lead p) :
    bs.foldl Decoder.step ⟨chars, none⟩ = ⟨chars, some p⟩ := by
  induction bs using List.reverseRecOn generalizing p with
  | nil => cases h
  | append_singleton front b ih =>
    by_cases hfront : front = []
    · subst hfront
      exact begin_lead h
    · rw [begun_snoc hfront] at h
      obtain ⟨q, hq, haccept⟩ := exists_of_next_eq_lead h
      rw [List.foldl_append, ih hq, List.foldl_cons, List.foldl_nil, step_pending, haccept]

/-- **The bytes of a character give that character**, whatever has been read before. -/
theorem foldl_step_char (chars : List Char) (c : Char) :
    (String.utf8EncodeChar c).foldl Decoder.step ⟨chars, none⟩ = ⟨c :: chars, none⟩ := by
  have hbegun := begun_encodeChar c
  generalize String.utf8EncodeChar c = bs at hbegun
  cases bs using List.reverseRecOn with
  | nil => cases hbegun
  | append_singleton front b =>
    by_cases hfront : front = []
    · subst hfront
      have hstart : start b = .char c := hbegun
      simp only [List.nil_append, List.foldl_cons, List.foldl_nil, Decoder.step, Decoder.begin,
        hstart]
    · rw [begun_snoc hfront] at hbegun
      obtain ⟨q, hq, haccept⟩ := exists_of_next_eq_char hbegun
      rw [List.foldl_append, foldl_step_of_begun chars hq, List.foldl_cons, List.foldl_nil,
        step_pending, haccept]

theorem foldl_step_chars (chars text : List Char) :
    (text.flatMap String.utf8EncodeChar).foldl Decoder.step ⟨chars, none⟩ =
      ⟨text.reverse ++ chars, none⟩ := by
  induction text generalizing chars with
  | nil => rfl
  | cons c text ih => simp [List.flatMap_cons, List.foldl_append, foldl_step_char, ih]

/-- **The bytes of a text decode to the text.** -/
@[simp] theorem decode_encode (text : String) : decode (encode text) = text := by
  rw [decode, encode, Decoder.empty, foldl_step_chars]
  simp [Decoder.finish]

end ScriptStore.Utf8
