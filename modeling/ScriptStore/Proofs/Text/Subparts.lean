import Mathlib.Data.Nat.Find
import ScriptStore.Proofs.Text.Utf8

/-!
# What bytes decode to

Bytes need not be UTF-8. Where there is no character at their front, the longest run of bytes that
could have become one is put aside, or a single byte if none could. Each such run is read as one
replacement character, and the characters in between are kept.

* `IsMaximalSubpart` — the run at the front of bytes where there is no character.
* `Part`, `Splits` — bytes as characters and runs; `exists_splits`, `Splits.unique` — **all bytes
  are that, in one way only**.
* `Splits.decode_eq` — **bytes decode to their characters, and to a replacement for each run**.
* `encode_decode_eq_iff` — the text of bytes has the same bytes exactly if they are UTF-8.
-/

namespace ScriptStore.Utf8

variable {b : UInt8} {bs part other rest : List UInt8} {c d : Char}

/-! ## Characters and subparts -/

/-- Bytes that are the beginning of UTF-8. -/
def Begins (bytes : List UInt8) : Prop := ∃ text, bytes <+: encode text

/-- The bytes of a character are at the front. -/
def IsCharAt (bytes : List UInt8) (c : Char) : Prop := String.utf8EncodeChar c <+: bytes

/-- Where there is no character at the front of bytes, the longest run there that is the beginning
of UTF-8 or a single byte. -/
structure IsMaximalSubpart (part bytes : List UInt8) : Prop where
  unconvertible : ∀ c, ¬ IsCharAt bytes c
  front : part <+: bytes
  ne_nil : part ≠ []
  subpart : Begins part ∨ part.length = 1
  longest : ∀ other, other <+: bytes → Begins other ∨ other.length = 1 →
    other.length ≤ part.length

/-- A part of bytes: a character, or a run that is none. -/
inductive Part where
  | char (c : Char)
  | invalid (run : List UInt8)
  deriving DecidableEq

namespace Part

/-- The bytes of a part. -/
def bytes : Part → List UInt8
  | char c => String.utf8EncodeChar c
  | invalid run => run

/-- The character that a part is read as. -/
def read : Part → Char
  | char c => c
  | invalid _ => replacement

end Part

/-- Bytes are these parts: characters, and the maximal subparts where there is none. -/
inductive Splits : List UInt8 → List Part → Prop where
  | nil : Splits [] []
  | char (c : Char) {rest : List UInt8} {parts : List Part} (h : Splits rest parts) :
      Splits (String.utf8EncodeChar c ++ rest) (.char c :: parts)
  | invalid {run rest : List UInt8} {parts : List Part}
      (maximal : IsMaximalSubpart run (run ++ rest)) (h : Splits rest parts) :
      Splits (run ++ rest) (.invalid run :: parts)

/-! ## Characters at the front -/

theorem encodeChar_ne_nil (c : Char) : String.utf8EncodeChar c ≠ [] :=
  String.utf8EncodeChar_ne_nil

/-- At most one character is at the front of bytes. -/
theorem IsCharAt.unique (hc : IsCharAt bs c) (hd : IsCharAt bs d) : c = d := by
  have hsame : ∀ {c d}, String.utf8EncodeChar c <+: String.utf8EncodeChar d → c = d := by
    rintro c d ⟨rest, hrest⟩
    have hbegun := begun_encodeChar d
    rw [← hrest, begun_append (encodeChar_ne_nil c), begun_encodeChar] at hbegun
    exact (eq_of_foldl_next_char hbegun).2
  rcases List.prefix_or_prefix_of_prefix hc hd with h | h
  · exact hsame h
  · exact (hsame h).symm

/-! ## Bytes that can become a character -/

theorem begins_of_begun (some : bs ≠ []) (h : begun bs ≠ .invalid) : Begins bs := by
  obtain ⟨c, hc⟩ := (begun_ne_invalid_iff some).mp h
  refine ⟨String.singleton c, ?_⟩
  simpa [encode] using hc

/-- Where there is no character, the beginning of UTF-8 has begun one. -/
theorem begun_of_begins (h : Begins bs) (some : bs ≠ []) (none : ∀ c, ¬ IsCharAt bs c) :
    begun bs ≠ .invalid := by
  obtain ⟨text, htext⟩ := h
  unfold encode at htext
  cases hchars : text.toList with
  | nil =>
    rw [hchars, List.flatMap_nil, List.prefix_nil] at htext
    exact absurd htext some
  | cons c chars =>
    rw [hchars, List.flatMap_cons] at htext
    rcases List.prefix_or_prefix_of_prefix htext (List.prefix_append _ _) with hc | hc
    · exact (begun_ne_invalid_iff some).mpr ⟨c, hc⟩
    · exact absurd hc (none c)

/-! ## Maximal subparts -/

/-- There is one maximal subpart at most. -/
theorem IsMaximalSubpart.unique (h : IsMaximalSubpart part bs) (h' : IsMaximalSubpart other bs) :
    part = other := by
  have hle := h'.longest part h.front h.subpart
  have hge := h.longest other h'.front h'.subpart
  exact (List.prefix_of_prefix_length_le h.front h'.front hle).eq_of_length
    (Nat.le_antisymm hle hge)

/-- Where there is no character, there is a maximal subpart. -/
theorem exists_isMaximalSubpart (some : bs ≠ []) (none : ∀ c, ¬ IsCharAt bs c) :
    ∃ run rest, bs = run ++ rest ∧ IsMaximalSubpart run bs := by
  classical
  let CanBe (n : Nat) : Prop :=
    ∃ run, run <+: bs ∧ (Begins run ∨ run.length = 1) ∧ run.length = n
  have hlength : 1 ≤ bs.length := List.length_pos_iff.mpr some
  have hone : CanBe 1 := by
    have htake : (bs.take 1).length = 1 := by rw [List.length_take]; omega
    exact ⟨bs.take 1, List.take_prefix 1 bs, .inr htake, htake⟩
  have hbound : ∀ n, CanBe n → n ≤ Nat.findGreatest CanBe bs.length := by
    rintro n ⟨run, hfront, hrun, rfl⟩
    exact Nat.le_findGreatest hfront.length_le ⟨run, hfront, hrun, rfl⟩
  obtain ⟨run, hfront, hrun, hgreatest⟩ := Nat.findGreatest_spec hlength hone
  have hpos : 1 ≤ run.length := by
    rw [hgreatest]
    exact hbound 1 hone
  obtain ⟨rest, hrest⟩ := hfront
  refine ⟨run, rest, hrest.symm, none, ⟨rest, hrest⟩, List.length_pos_iff.mp hpos, hrun, ?_⟩
  intro other hother hsubpart
  rw [hgreatest]
  exact hbound _ ⟨other, hother, hsubpart, rfl⟩

/-! ## Splitting -/

/-- **All bytes are characters and maximal subparts.** -/
theorem exists_splits (bs : List UInt8) : ∃ parts, Splits bs parts := by
  induction hlength : bs.length using Nat.strongRecOn generalizing bs with
  | ind n ih =>
    by_cases hnil : bs = []
    · subst hnil
      exact ⟨[], .nil⟩
    by_cases hchar : ∃ c, IsCharAt bs c
    · obtain ⟨c, rest, rfl⟩ := hchar
      have hpos := List.length_pos_iff.mpr (encodeChar_ne_nil c)
      rw [List.length_append] at hlength
      obtain ⟨parts, hparts⟩ := ih rest.length (by omega) rest rfl
      exact ⟨_, .char c hparts⟩
    · obtain ⟨run, rest, rfl, maximal⟩ :=
        exists_isMaximalSubpart hnil fun c hc => hchar ⟨c, hc⟩
      have hpos := List.length_pos_iff.mpr maximal.ne_nil
      rw [List.length_append] at hlength
      obtain ⟨parts, hparts⟩ := ih rest.length (by omega) rest rfl
      exact ⟨_, .invalid maximal hparts⟩

variable {parts others : List Part}

/-- They are so in one way only. -/
theorem Splits.unique (h : Splits bs parts) (h' : Splits bs others) : parts = others := by
  induction h generalizing others with
  | nil =>
    generalize hbs : ([] : List UInt8) = bs at h'
    cases h' with
    | nil => rfl
    | char c _ => exact absurd (List.append_eq_nil_iff.mp hbs.symm).1 (encodeChar_ne_nil c)
    | invalid maximal _ => exact absurd (List.append_eq_nil_iff.mp hbs.symm).1 maximal.ne_nil
  | @char c rest parts _ ih =>
    have hc : IsCharAt (String.utf8EncodeChar c ++ rest) c := List.prefix_append _ _
    generalize hbs : String.utf8EncodeChar c ++ rest = bs at h' hc
    cases h' with
    | nil => exact absurd (List.append_eq_nil_iff.mp hbs).1 (encodeChar_ne_nil c)
    | char d h' =>
      obtain rfl := hc.unique (List.prefix_append _ _)
      rw [ih (List.append_cancel_left hbs ▸ h')]
    | invalid maximal _ => exact absurd hc (maximal.unconvertible c)
  | @invalid run rest parts maximal _ ih =>
    generalize hbs : run ++ rest = bs at h' maximal
    cases h' with
    | nil => exact absurd (List.append_eq_nil_iff.mp hbs).1 maximal.ne_nil
    | char d _ => exact absurd (List.prefix_append _ _) (maximal.unconvertible d)
    | invalid maximal' h' =>
      obtain rfl := maximal.unique maximal'
      rw [ih (List.append_cancel_left hbs ▸ h')]

/-! ## The decoder -/

/-- A maximal subpart is read as one replacement character. -/
theorem finish_of_subpart (maximal : IsMaximalSubpart part (part ++ rest)) (chars : List Char) :
    ((part ++ rest).foldl Decoder.step ⟨chars, none⟩).finish =
      (rest.foldl Decoder.step ⟨replacement :: chars, none⟩).finish := by
  have hnone : ∀ c, ¬ IsCharAt part c := fun c hc =>
    maximal.unconvertible c (hc.trans (List.prefix_append _ _))
  rw [List.foldl_append]
  cases hbegun : begun part with
  | char c =>
    have hc := begun_eq_char_iff.mp hbegun
    exact absurd (hc ▸ List.prefix_rfl) (hnone c)
  | lead p =>
    rw [foldl_step_of_begun chars hbegun]
    cases rest with
    | nil => rfl
    | cons b rest =>
      -- a byte that went on with it would make a character or a longer subpart
      have hfront : part ++ [b] <+: part ++ b :: rest := ⟨rest, by simp⟩
      have haccept : p.accept b = .invalid := by
        have hsnoc := begun_snoc (b := b) maximal.ne_nil
        rw [hbegun, next_lead] at hsnoc
        cases haccept : p.accept b with
        | invalid => rfl
        | char c =>
          have hc := begun_eq_char_iff.mp (hsnoc.trans haccept)
          exact absurd (by rw [IsCharAt, hc]; exact hfront) (maximal.unconvertible c)
        | lead q =>
          have hbegins : Begins (part ++ [b]) :=
            begins_of_begun (by simp) (by rw [hsnoc, haccept]; simp)
          have hlonger := maximal.longest _ hfront (.inl hbegins)
          rw [List.length_append, List.length_singleton] at hlonger
          omega
      rw [List.foldl_cons, step_pending, haccept, List.foldl_cons]
  | invalid =>
    have hlength : part.length = 1 := maximal.subpart.resolve_left fun hbegins =>
      begun_of_begins hbegins maximal.ne_nil hnone hbegun
    obtain ⟨b, rfl⟩ := List.length_eq_one_iff.mp hlength
    have hstart : start b = .invalid := hbegun
    simp only [List.foldl_cons, List.foldl_nil, Decoder.step, Decoder.begin, hstart]

theorem Splits.finish_eq (h : Splits bs parts) (chars : List Char) :
    (bs.foldl Decoder.step ⟨chars, none⟩).finish = chars.reverse ++ parts.map Part.read := by
  induction h generalizing chars with
  | nil => simp [Decoder.finish]
  | char c _ ih =>
    rw [List.foldl_append, foldl_step_char, ih]
    simp [Part.read]
  | invalid maximal _ ih =>
    rw [finish_of_subpart maximal, ih]
    simp [Part.read]

/-- **Bytes decode to their characters, and to one replacement for each maximal subpart.** -/
theorem Splits.decode_eq (h : Splits bs parts) :
    decode bs = String.ofList (parts.map Part.read) := by
  rw [decode, Decoder.empty, h.finish_eq]
  rfl

example : decode [0xF0, 0x9F, 0x98, 0x41, 0xED, 0xA0] = "\uFFFDA\uFFFD\uFFFD" := by decide

/-- Parts are the bytes that they have been split from. -/
theorem Splits.flatMap_bytes (h : Splits bs parts) : parts.flatMap Part.bytes = bs := by
  induction h with
  | nil => rfl
  | char c _ ih => rw [List.flatMap_cons, ih, Part.bytes]
  | invalid _ _ ih => rw [List.flatMap_cons, ih, Part.bytes]

/-! ## Bytes that are UTF-8 -/

/-- Bytes are UTF-8 exactly if they are the bytes of a text. -/
theorem isValidUTF8_iff : bs.toByteArray.IsValidUTF8 ↔ ∃ text, encode text = bs := by
  constructor
  · rintro ⟨chars, hchars⟩
    exact ⟨String.ofList chars, by
      rw [encode, String.toList_ofList]
      exact (List.toByteArray_inj.mp hchars).symm⟩
  · rintro ⟨text, rfl⟩
    exact ⟨text.toList, rfl⟩

/-- **What bytes decode to has the same bytes exactly if they are UTF-8.** -/
theorem encode_decode_eq_iff : encode (decode bs) = bs ↔ bs.toByteArray.IsValidUTF8 := by
  rw [isValidUTF8_iff]
  constructor
  · intro h
    exact ⟨_, h⟩
  · rintro ⟨text, rfl⟩
    rw [decode_encode]

end ScriptStore.Utf8
