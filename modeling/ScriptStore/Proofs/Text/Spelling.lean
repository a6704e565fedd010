import Mathlib.Data.List.Induction
import ScriptStore.Text.Utf8

/-!
# Characters and their bytes

A character is one to four bytes. The first says how many more are owed, and each of these is in the
range that those before it allow. This module ties what the decoder makes of bytes to the bytes of
characters.

* `begun` — what bytes have begun, in the eyes of the decoder: a character that is complete, one that
  is pending, or none.
* `begun_eq_char_iff` — **bytes come to a character exactly if they are its bytes**.
* `begun_ne_invalid_iff` — **bytes have begun something exactly if a character begins with them**.
-/

namespace ScriptStore.Utf8

variable {b : UInt8} {bs rest : List UInt8} {c d : Char} {p : Pending} {s : Start} {n : Nat}

/-! ## Bytes and characters as numbers -/

theorem toNat_ofNat_of_lt (h : n < 256) : (UInt8.ofNat n).toNat = n :=
  UInt8.toNat_ofNat_of_lt' h

theorem ofNat_eq_iff {n : Nat} (h : n < 256) : UInt8.ofNat n = b ↔ n = b.toNat := by
  rw [← UInt8.toNat_inj, toNat_ofNat_of_lt h]

theorem toNat_val_ofNat {n : Nat} (h : n < 0xD800 ∨ 0xDFFF < n ∧ n < 0x110000) :
    (Char.ofNat n).val.toNat = n := by
  have hvalid : n.isValidChar := h
  rw [Char.ofNat, dif_pos hvalid]
  rfl

/-- The four forms of a character in bytes. -/
theorem encodeChar_forms (c : Char) : ∃ n, n = c.val.toNat ∧
    (n < 0x80 ∧ String.utf8EncodeChar c = [.ofNat n] ∨
      0x80 ≤ n ∧ n < 0x800 ∧
        String.utf8EncodeChar c = [.ofNat (n / 64 % 32 + 192), .ofNat (n % 64 + 128)] ∨
      0x800 ≤ n ∧ n < 0x10000 ∧ String.utf8EncodeChar c =
        [.ofNat (n / 4096 % 16 + 224), .ofNat (n / 64 % 64 + 128), .ofNat (n % 64 + 128)] ∨
      0x10000 ≤ n ∧ n < 0x110000 ∧ String.utf8EncodeChar c =
        [.ofNat (n / 262144 % 8 + 240), .ofNat (n / 4096 % 64 + 128), .ofNat (n / 64 % 64 + 128),
          .ofNat (n % 64 + 128)]) := by
  refine ⟨_, rfl, ?_⟩
  have hrange : c.val.toNat < 0xD800 ∨ 0xDFFF < c.val.toNat ∧ c.val.toNat < 0x110000 := c.valid
  rw [String.utf8EncodeChar]
  split
  · exact .inl ⟨by omega, rfl⟩
  split
  · exact .inr (.inl ⟨by omega, by omega, rfl⟩)
  split
  · exact .inr (.inr (.inl ⟨by omega, by omega, rfl⟩))
  · exact .inr (.inr (.inr ⟨by omega, by omega, rfl⟩))

/-! ## First bytes -/

theorem start_ofNat_one (h : n < 0x80) : start (.ofNat n) = .char (Char.ofNat n) := by
  have hn := toNat_ofNat_of_lt (n := n) (by omega)
  simp [start, hn, h]

theorem start_ofNat_two (h : 0xC2 ≤ n) (h' : n < 0xE0) :
    start (.ofNat n) = .lead ⟨n - 0xC0, 1, 0x80, 0xBF⟩ := by
  have hn := toNat_ofNat_of_lt (n := n) (by omega)
  have h1 : ¬ n < 0x80 := by omega
  have h2 : ¬ n < 0xC2 := by omega
  simp only [start, hn, if_neg h1, if_neg h2, if_pos h']

theorem start_ofNat_three (h : 0xE0 ≤ n) (h' : n < 0xF0) :
    start (.ofNat n) =
      .lead ⟨n - 0xE0, 2, if n = 0xE0 then 0xA0 else 0x80, if n = 0xED then 0x9F else 0xBF⟩ := by
  have hn := toNat_ofNat_of_lt (n := n) (by omega)
  have h1 : ¬ n < 0x80 := by omega
  have h2 : ¬ n < 0xC2 := by omega
  have h3 : ¬ n < 0xE0 := by omega
  simp only [start, hn, if_neg h1, if_neg h2, if_neg h3, if_pos h']

theorem start_ofNat_four (h : 0xF0 ≤ n) (h' : n < 0xF5) :
    start (.ofNat n) =
      .lead ⟨n - 0xF0, 3, if n = 0xF0 then 0x90 else 0x80, if n = 0xF4 then 0x8F else 0xBF⟩ := by
  have hn := toNat_ofNat_of_lt (n := n) (by omega)
  have h1 : ¬ n < 0x80 := by omega
  have h2 : ¬ n < 0xC2 := by omega
  have h3 : ¬ n < 0xE0 := by omega
  have h4 : ¬ n < 0xF0 := by omega
  simp only [start, hn, if_neg h1, if_neg h2, if_neg h3, if_neg h4, if_pos h']

/-! ## Inside of a character -/

/-- A byte that is read while a character is pending. -/
def Pending.accept (p : Pending) (b : UInt8) : Start :=
  if p.low ≤ b.toNat ∧ b.toNat ≤ p.high then
    let value := p.value * 64 + (b.toNat - 0x80)
    if p.owed ≤ 1 then .char (Char.ofNat value) else .lead ⟨value, p.owed - 1, 0x80, 0xBF⟩
  else .invalid

/-- What bytes have begun, after one more byte. Nothing goes on behind a character. -/
def Start.next : Start → UInt8 → Start
  | .lead p, b => p.accept b
  | _, _ => .invalid

/-- What bytes begin. -/
def begun : List UInt8 → Start
  | [] => .invalid
  | b :: rest => rest.foldl Start.next (start b)

theorem next_lead (p : Pending) (b : UInt8) : (Start.lead p).next b = p.accept b := rfl

theorem foldl_next_invalid (bytes : List UInt8) : bytes.foldl Start.next .invalid = .invalid := by
  induction bytes with
  | nil => rfl
  | cons b bytes ih => exact ih

theorem begun_append (some : bs ≠ []) : begun (bs ++ rest) = rest.foldl Start.next (begun bs) := by
  cases bs with
  | nil => exact absurd rfl some
  | cons b bs => exact List.foldl_append


section Accepting

variable {value owed low high n : Nat}

theorem accept_tail (hlow : low ≤ n) (hhigh : n ≤ high) (hn : n < 256) :
    Pending.accept ⟨value, owed + 2, low, high⟩ (.ofNat n) =
      .lead ⟨value * 64 + (n - 0x80), owed + 1, 0x80, 0xBF⟩ := by
  have howed : ¬ owed + 2 ≤ 1 := by omega
  simp only [Pending.accept, toNat_ofNat_of_lt hn, if_pos (And.intro hlow hhigh), if_neg howed]
  rfl

theorem accept_last (hlow : low ≤ n) (hhigh : n ≤ high) (hn : n < 256) :
    Pending.accept ⟨value, 1, low, high⟩ (.ofNat n) =
      .char (Char.ofNat (value * 64 + (n - 0x80))) := by
  simp only [Pending.accept, toNat_ofNat_of_lt hn, if_pos (And.intro hlow hhigh), Nat.le_refl,
    if_true]

end Accepting

/-- **The bytes of a character come to it.** -/
theorem begun_encodeChar (c : Char) : begun (String.utf8EncodeChar c) = .char c := by
  have hc : Char.ofNat c.val.toNat = c := Char.ofNat_toNat c
  have hvalid : c.val.toNat < 0xD800 ∨ 0xDFFF < c.val.toNat ∧ c.val.toNat < 0x110000 := c.valid
  obtain ⟨v, hv, hforms⟩ := encodeChar_forms c
  rw [← hv] at hc hvalid
  rcases hforms with ⟨h1, henc⟩ | ⟨h1, h2, henc⟩ | ⟨h1, h2, henc⟩ | ⟨h1, h2, henc⟩
  · simp only [henc, begun, List.foldl_nil, start_ofNat_one h1, hc]
  · have hstart := start_ofNat_two (n := v / 64 % 32 + 192) (by omega) (by omega)
    simp only [henc, begun, List.foldl_cons, List.foldl_nil, hstart]
    rw [next_lead, accept_last (by omega) (by omega) (by omega)]
    have hvalue : (v / 64 % 32 + 192 - 192) * 64 + (v % 64 + 128 - 128) = v := by omega
    rw [hvalue, hc]
  · have hstart := start_ofNat_three (n := v / 4096 % 16 + 224) (by omega) (by omega)
    simp only [henc, begun, List.foldl_cons, List.foldl_nil, hstart]
    rw [next_lead, accept_tail (by split <;> omega) (by split <;> omega) (by omega), next_lead,
      accept_last (by omega) (by omega) (by omega)]
    have hvalue : ((v / 4096 % 16 + 224 - 224) * 64 + (v / 64 % 64 + 128 - 128)) * 64 +
        (v % 64 + 128 - 128) = v := by omega
    rw [hvalue, hc]
  · have hstart := start_ofNat_four (n := v / 262144 % 8 + 240) (by omega) (by omega)
    simp only [henc, begun, List.foldl_cons, List.foldl_nil, hstart]
    rw [next_lead, accept_tail (by split <;> omega) (by split <;> omega) (by omega), next_lead,
      accept_tail (by omega) (by omega) (by omega), next_lead,
      accept_last (by omega) (by omega) (by omega)]
    have hvalue : (((v / 262144 % 8 + 240 - 240) * 64 + (v / 4096 % 64 + 128 - 128)) * 64 +
        (v / 64 % 64 + 128 - 128)) * 64 + (v % 64 + 128 - 128) = v := by omega
    rw [hvalue, hc]

/-! ## The bytes of a character of a value -/

theorem encodeChar_one (hb : b.toNat < 0x80) :
    String.utf8EncodeChar (Char.ofNat b.toNat) = [b] := by
  obtain ⟨n, hn, hforms⟩ := encodeChar_forms (Char.ofNat b.toNat)
  rw [toNat_val_ofNat (by omega)] at hn
  rcases hforms with ⟨-, hc⟩ | ⟨hlow, -⟩ | ⟨hlow, -⟩ | ⟨hlow, -⟩
  · rw [hc, (ofNat_eq_iff (by omega)).mpr hn]
  all_goals omega

section Bytes

variable {b1 b2 b3 : UInt8}

theorem encodeChar_two (hb : 0xC2 ≤ b.toNat) (hb' : b.toNat < 0xE0) (h1 : 0x80 ≤ b1.toNat)
    (h1' : b1.toNat ≤ 0xBF) :
    String.utf8EncodeChar (Char.ofNat ((b.toNat - 0xC0) * 64 + (b1.toNat - 0x80))) = [b, b1] := by
  obtain ⟨n, hn, hforms⟩ :=
    encodeChar_forms (Char.ofNat ((b.toNat - 0xC0) * 64 + (b1.toNat - 0x80)))
  rw [toNat_val_ofNat (by omega)] at hn
  rcases hforms with ⟨hhigh, -⟩ | ⟨-, -, hc⟩ | ⟨hlow, -⟩ | ⟨hlow, -⟩
  · omega
  · rw [hc, (ofNat_eq_iff (b := b) (by omega)).mpr (by omega),
      (ofNat_eq_iff (b := b1) (by omega)).mpr (by omega)]
  all_goals omega

/-- The second byte tells the characters of three bytes from those of fewer bytes, and keeps out the
surrogates. -/
theorem encodeChar_three (hb : 0xE0 ≤ b.toNat) (hb' : b.toNat < 0xF0)
    (h1 : (if b.toNat = 0xE0 then 0xA0 else 0x80) ≤ b1.toNat)
    (h1' : b1.toNat ≤ if b.toNat = 0xED then 0x9F else 0xBF)
    (h2 : 0x80 ≤ b2.toNat) (h2' : b2.toNat ≤ 0xBF) :
    String.utf8EncodeChar (Char.ofNat
      (((b.toNat - 0xE0) * 64 + (b1.toNat - 0x80)) * 64 + (b2.toNat - 0x80))) = [b, b1, b2] := by
  have hlow : 0x80 ≤ b1.toNat ∧ (b.toNat = 0xE0 → 0xA0 ≤ b1.toNat) := by
    split at h1 <;> omega
  have hhigh : b1.toNat ≤ 0xBF ∧ (b.toNat = 0xED → b1.toNat ≤ 0x9F) := by
    split at h1' <;> omega
  obtain ⟨n, hn, hforms⟩ := encodeChar_forms (Char.ofNat
    (((b.toNat - 0xE0) * 64 + (b1.toNat - 0x80)) * 64 + (b2.toNat - 0x80)))
  rw [toNat_val_ofNat (by omega)] at hn
  rcases hforms with ⟨hless, -⟩ | ⟨-, hless, -⟩ | ⟨-, -, hc⟩ | ⟨hmore, -⟩
  · omega
  · omega
  · rw [hc, (ofNat_eq_iff (b := b) (by omega)).mpr (by omega),
      (ofNat_eq_iff (b := b1) (by omega)).mpr (by omega),
      (ofNat_eq_iff (b := b2) (by omega)).mpr (by omega)]
  · omega

/-- The second byte tells the characters of four bytes from those of fewer bytes, and keeps out the
values above those of characters. -/
theorem encodeChar_four (hb : 0xF0 ≤ b.toNat) (hb' : b.toNat < 0xF5)
    (h1 : (if b.toNat = 0xF0 then 0x90 else 0x80) ≤ b1.toNat)
    (h1' : b1.toNat ≤ if b.toNat = 0xF4 then 0x8F else 0xBF)
    (h2 : 0x80 ≤ b2.toNat) (h2' : b2.toNat ≤ 0xBF) (h3 : 0x80 ≤ b3.toNat) (h3' : b3.toNat ≤ 0xBF) :
    String.utf8EncodeChar (Char.ofNat
      ((((b.toNat - 0xF0) * 64 + (b1.toNat - 0x80)) * 64 + (b2.toNat - 0x80)) * 64 +
        (b3.toNat - 0x80))) = [b, b1, b2, b3] := by
  have hlow : 0x80 ≤ b1.toNat ∧ (b.toNat = 0xF0 → 0x90 ≤ b1.toNat) := by
    split at h1 <;> omega
  have hhigh : b1.toNat ≤ 0xBF ∧ (b.toNat = 0xF4 → b1.toNat ≤ 0x8F) := by
    split at h1' <;> omega
  obtain ⟨n, hn, hforms⟩ := encodeChar_forms (Char.ofNat
    ((((b.toNat - 0xF0) * 64 + (b1.toNat - 0x80)) * 64 + (b2.toNat - 0x80)) * 64 +
      (b3.toNat - 0x80)))
  rw [toNat_val_ofNat (by omega)] at hn
  rcases hforms with ⟨hless, -⟩ | ⟨-, hless, -⟩ | ⟨-, hless, -⟩ | ⟨-, -, hc⟩
  · omega
  · omega
  · omega
  · rw [hc, (ofNat_eq_iff (b := b) (by omega)).mpr (by omega),
      (ofNat_eq_iff (b := b1) (by omega)).mpr (by omega),
      (ofNat_eq_iff (b := b2) (by omega)).mpr (by omega),
      (ofNat_eq_iff (b := b3) (by omega)).mpr (by omega)]

end Bytes

/-! ## Bytes that come to a character -/

section Spelling

variable {value owed low high : Nat}

theorem eq_of_foldl_next_char (h : rest.foldl Start.next (.char d) = .char c) :
    rest = [] ∧ d = c := by
  cases rest with
  | nil => exact ⟨rfl, Start.char.inj h⟩
  | cons b rest =>
    have hinvalid : rest.foldl Start.next .invalid = .char c := h
    rw [foldl_next_invalid] at hinvalid
    cases hinvalid

/-- The byte that completes a character. -/
theorem exists_of_foldl_next_last
    (h : rest.foldl Start.next (.lead ⟨value, 1, low, high⟩) = .char c) :
    ∃ b, rest = [b] ∧ low ≤ b.toNat ∧ b.toNat ≤ high ∧
      Char.ofNat (value * 64 + (b.toNat - 0x80)) = c := by
  cases rest with
  | nil => cases h
  | cons b rest =>
    have hrest : rest.foldl Start.next (Pending.accept ⟨value, 1, low, high⟩ b) = .char c := h
    unfold Pending.accept at hrest
    split at hrest
    · rename_i hrange
      obtain ⟨rfl, rfl⟩ := eq_of_foldl_next_char hrest
      exact ⟨b, rfl, hrange.1, hrange.2, rfl⟩
    · rw [foldl_next_invalid] at hrest
      cases hrest

/-- A byte that continues a character. -/
theorem exists_of_foldl_next_tail
    (h : rest.foldl Start.next (.lead ⟨value, owed + 2, low, high⟩) = .char c) :
    ∃ b more, rest = b :: more ∧ low ≤ b.toNat ∧ b.toNat ≤ high ∧
      more.foldl Start.next (.lead ⟨value * 64 + (b.toNat - 0x80), owed + 1, 0x80, 0xBF⟩) =
        .char c := by
  cases rest with
  | nil => cases h
  | cons b rest =>
    have hrest : rest.foldl Start.next (Pending.accept ⟨value, owed + 2, low, high⟩ b) =
      .char c := h
    unfold Pending.accept at hrest
    split at hrest
    · rename_i hrange
      have howed : ¬ owed + 2 ≤ 1 := by omega
      simp only [if_neg howed] at hrest
      exact ⟨b, rest, rfl, hrange.1, hrange.2, hrest⟩
    · rw [foldl_next_invalid] at hrest
      cases hrest

/-- **Bytes come to a character only if they are its bytes.** -/
theorem encodeChar_of_begun (h : begun bs = .char c) : String.utf8EncodeChar c = bs := by
  cases bs with
  | nil => cases h
  | cons b rest =>
    have hrest : rest.foldl Start.next (start b) = .char c := h
    unfold start at hrest
    simp only at hrest
    split at hrest
    · rename_i hone
      obtain ⟨rfl, rfl⟩ := eq_of_foldl_next_char hrest
      exact encodeChar_one hone
    split at hrest
    · rw [foldl_next_invalid] at hrest
      cases hrest
    split at hrest
    · obtain ⟨b1, rfl, h1, h1', rfl⟩ := exists_of_foldl_next_last hrest
      exact encodeChar_two (by omega) (by omega) h1 h1'
    split at hrest
    · obtain ⟨b1, more, rfl, h1, h1', hmore⟩ := exists_of_foldl_next_tail hrest
      obtain ⟨b2, rfl, h2, h2', rfl⟩ := exists_of_foldl_next_last hmore
      exact encodeChar_three (by omega) (by omega) h1 h1' h2 h2'
    split at hrest
    · obtain ⟨b1, more, rfl, h1, h1', hmore⟩ := exists_of_foldl_next_tail hrest
      obtain ⟨b2, more, rfl, h2, h2', hmore⟩ := exists_of_foldl_next_tail hmore
      obtain ⟨b3, rfl, h3, h3', rfl⟩ := exists_of_foldl_next_last hmore
      exact encodeChar_four (by omega) (by omega) h1 h1' h2 h2' h3 h3'
    · rw [foldl_next_invalid] at hrest
      cases hrest

end Spelling

/-- **Bytes come to a character exactly if they are its bytes.** -/
theorem begun_eq_char_iff : begun bs = .char c ↔ String.utf8EncodeChar c = bs := by
  refine ⟨encodeChar_of_begun, ?_⟩
  rintro rfl
  exact begun_encodeChar c

/-! ## Bytes that can become a character -/

/-- A byte can follow. -/
structure Pending.Open (p : Pending) : Prop where
  owed : 1 ≤ p.owed
  range : p.low ≤ p.high
  high : p.high ≤ 0xBF

theorem open_of_start (h : start b = .lead p) : p.Open := by
  unfold start at h
  simp only at h
  split at h
  · cases h
  split at h
  · cases h
  split at h
  · obtain rfl := Start.lead.inj h
    exact ⟨Nat.le_refl 1, (by omega : 0x80 ≤ 0xBF), Nat.le_refl _⟩
  split at h
  · obtain rfl := Start.lead.inj h
    exact ⟨(by omega : 1 ≤ 2), by simp only; split <;> split <;> omega,
      by simp only; split <;> omega⟩
  split at h
  · obtain rfl := Start.lead.inj h
    exact ⟨(by omega : 1 ≤ 3), by simp only; split <;> split <;> omega,
      by simp only; split <;> omega⟩
  · cases h

theorem open_of_accept {q : Pending} (h : p.accept b = .lead q) : q.Open := by
  unfold Pending.accept at h
  split at h
  · simp only at h
    split at h
    · cases h
    · rename_i howed
      obtain rfl := Start.lead.inj h
      exact ⟨by simp only; omega, (by omega : 0x80 ≤ 0xBF), Nat.le_refl _⟩
  · cases h

theorem exists_of_next_eq_lead (h : s.next b = .lead p) :
    ∃ q, s = .lead q ∧ q.accept b = .lead p := by
  cases s with
  | lead q => exact ⟨q, rfl, h⟩
  | char c => cases h
  | invalid => cases h

theorem exists_of_next_eq_char (h : s.next b = .char c) :
    ∃ q, s = .lead q ∧ q.accept b = .char c := by
  cases s with
  | lead q => exact ⟨q, rfl, h⟩
  | char d => cases h
  | invalid => cases h

theorem begun_snoc (some : bs ≠ []) : begun (bs ++ [b]) = (begun bs).next b := begun_append some

theorem open_of_begun (h : begun bs = .lead p) : p.Open := by
  cases bs using List.reverseRecOn with
  | nil => cases h
  | append_singleton front b =>
    by_cases hfront : front = []
    · subst hfront
      exact open_of_start h
    · rw [begun_snoc hfront] at h
      obtain ⟨q, -, hq⟩ := exists_of_next_eq_lead h
      exact open_of_accept hq

/-- What is pending can be completed. -/
theorem Pending.Open.exists_completion (hp : p.Open) :
    ∃ (more : List UInt8) (c : Char), more.foldl Start.next (.lead p) = .char c := by
  obtain ⟨value, owed, low, high⟩ := p
  obtain ⟨howed, hrange, hhigh⟩ := hp
  simp only at howed hrange hhigh
  induction owed generalizing value low high with
  | zero => omega
  | succ owed ih =>
    cases owed with
    | zero =>
      exact ⟨[.ofNat low], _, accept_last (Nat.le_refl _) hrange (by omega)⟩
    | succ owed =>
      obtain ⟨more, c, hmore⟩ := ih (value * 64 + (low - 0x80)) 0x80 0xBF (by omega) (by decide)
        (by decide)
      refine ⟨.ofNat low :: more, c, ?_⟩
      rw [List.foldl_cons, Start.next, accept_tail (Nat.le_refl _) hrange (by omega)]
      exact hmore

/-- **Bytes have begun something exactly if a character begins with them.** -/
theorem begun_ne_invalid_iff (some : bs ≠ []) :
    begun bs ≠ .invalid ↔ ∃ c, bs <+: String.utf8EncodeChar c := by
  constructor
  · intro h
    cases hbegun : begun bs with
    | invalid => exact absurd hbegun h
    | char c => exact ⟨c, [], by rw [List.append_nil, begun_eq_char_iff.mp hbegun]⟩
    | lead p =>
      obtain ⟨more, c, hmore⟩ := (open_of_begun hbegun).exists_completion
      rw [← hbegun, ← begun_append some] at hmore
      exact ⟨c, more, (begun_eq_char_iff.mp hmore).symm⟩
  · rintro ⟨c, more, hmore⟩ hinvalid
    have hbegun := begun_encodeChar c
    rw [← hmore, begun_append some, hinvalid, foldl_next_invalid] at hbegun
    cases hbegun

end ScriptStore.Utf8
