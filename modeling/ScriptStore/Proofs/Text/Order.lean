import ScriptStore.Proofs.Text.Utf8

/-!
# Texts and their bytes are in the same order

Texts are ordered by their characters. Their bytes are in the same order, since of two characters
the greater has the greater bytes: its first byte tells how many there are, and more bytes stand for
greater characters.

* `encodeChar_lt` — the bytes of two characters, whatever follows them.
* `encode_lt` — **the bytes of texts are in the order of the texts**.
-/

namespace ScriptStore.Utf8

variable {m n : Nat} {c d : Char}

theorem ofNat_lt_ofNat_iff (hm : m < 256) (hn : n < 256) :
    UInt8.ofNat m < UInt8.ofNat n ↔ m < n := by
  rw [UInt8.lt_iff_toNat_lt, toNat_ofNat_of_lt hm, toNat_ofNat_of_lt hn]

theorem ofNat_eq_ofNat_iff (hm : m < 256) (hn : n < 256) :
    UInt8.ofNat m = UInt8.ofNat n ↔ m = n := by
  rw [← UInt8.toNat_inj, toNat_ofNat_of_lt hm, toNat_ofNat_of_lt hn]

/-- The bytes of the smaller of two characters come first, whatever follows them. -/
theorem encodeChar_lt (h : c < d) (rest rest' : List UInt8) :
    String.utf8EncodeChar c ++ rest < String.utf8EncodeChar d ++ rest' := by
  have hvalues : c.val.toNat < d.val.toNat := h
  obtain ⟨m, hm, hc⟩ := encodeChar_forms c
  obtain ⟨n, hn, hd⟩ := encodeChar_forms d
  rw [← hm, ← hn] at hvalues
  have h4096 (k : Nat) : k / 4096 = k / 64 / 64 := by omega
  have h262144 (k : Nat) : k / 262144 = k / 64 / 64 / 64 := by omega
  rcases hc with ⟨hm1, hc⟩ | ⟨hm1, hm2, hc⟩ | ⟨hm1, hm2, hc⟩ | ⟨hm1, hm2, hc⟩ <;>
    rcases hd with ⟨hn1, hd⟩ | ⟨hn1, hn2, hd⟩ | ⟨hn1, hn2, hd⟩ | ⟨hn1, hn2, hd⟩ <;>
    (try omega) <;>
    rw [hc, hd] <;>
    simp (disch := omega) only [List.cons_append, List.nil_append, List.cons_lt_cons_iff,
      ofNat_lt_ofNat_iff, ofNat_eq_ofNat_iff, h4096, h262144] <;>
    omega

/-- **The bytes of texts are in the order of the texts.** -/
theorem encode_lt {a b : String} (h : a < b) : encode a < encode b := by
  have hchars : a.toList < b.toList := h
  simp only [encode]
  generalize a.toList = as at hchars
  generalize b.toList = bs at hchars
  induction hchars with
  | nil =>
    obtain ⟨first, rest, hfirst⟩ := List.exists_cons_of_ne_nil String.utf8EncodeChar_ne_nil
    rw [List.flatMap_nil, List.flatMap_cons, hfirst]
    exact List.nil_lt_cons _ _
  | rel h => exact encodeChar_lt h _ _
  | cons _ ih => exact List.append_left_lt ih

end ScriptStore.Utf8
