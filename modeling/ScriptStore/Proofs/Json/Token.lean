import ScriptStore.Json.Token
import ScriptStore.Proofs.Json.Number

/-!
# Tokens read back

* `Reader.Holds` — what a reader has read so far; a word or number that has begun counts as read.
* `Reader.steps_text` — **a string reads back**, whatever its characters are.
* `Token.ofText?_row` — **a row of tokens reads back** if no two words or numbers are next to each
  other in it.
-/

namespace ScriptStore.Json

variable {read : FloatReader} {r : Reader} {t : Token} {ts : List Token} {c : Char}
  {cs chars : List Char}

/-! ## Steps -/

section Steps

variable {σ α : Type} {f : σ → α → Option σ} {a : α} {as as' : List α} {s s' : σ}

theorem foldlM_cons_of_eq_some (h : f s a = some s') : (a :: as).foldlM f s = as.foldlM f s' := by
  rw [List.foldlM_cons, h, Option.bind_eq_bind, Option.bind_some]

theorem foldlM_append_of_eq_some (h : as.foldlM f s = some s') :
    (as ++ as').foldlM f s = as'.foldlM f s' := by
  rw [List.foldlM_append, h, Option.bind_eq_bind, Option.bind_some]

theorem foldlM_singleton (f : σ → α → Option σ) (s : σ) (a : α) : [a].foldlM f s = f s a :=
  bind_pure (f s a)

/-- What every step keeps holds after all of them. -/
theorem foldlM_keeps {P : σ → Prop} (keeps : ∀ a ∈ as, ∀ s s', P s → f s a = some s' → P s')
    (hs : P s) (h : as.foldlM f s = some s') : P s' := by
  induction as generalizing s with
  | nil =>
    cases h
    exact hs
  | cons a as ih =>
    obtain ⟨hstep, hrest⟩ := List.forall_mem_cons.mp keeps
    rw [List.foldlM_cons, Option.bind_eq_bind, Option.bind_eq_some_iff] at h
    obtain ⟨next, hnext, h⟩ := h
    exact ih hrest (hstep s next hs hnext) h

end Steps

/-! ## Characters -/

/-- A character that ends a word or a number. -/
def endsBare (c : Char) : Bool := isBlank c || c = '"' || (punctuation? c).isSome

theorem endsBare_of_isNumeric (h : IsNumeric c) : endsBare c = false := by
  have hchars : ∀ c ∈ ['.', 'e', '+', '-'], endsBare c = false := by
    simp [endsBare, isBlank, punctuation?]
  rcases h with hdigit | hmem
  · have hne (d : Char) (hd : d.isDigit = false) : c ≠ d := by
      rintro rfl
      rw [hd] at hdigit
      cases hdigit
    simp [endsBare, isBlank, punctuation?, hne ' ' rfl, hne '\t' rfl, hne '\n' rfl, hne '\r' rfl,
      hne '"' rfl, hne '[' rfl, hne ']' rfl, hne '\x7b' rfl, hne '\x7d' rfl, hne ',' rfl,
      hne ':' rfl]
  · exact hchars c hmem

/-- A character of a code is read as the digit that it is. -/
theorem hexValue?_hexChar : ∀ n < 16, hexValue? (hexChar n) = some n := by decide

/-! ## Words and numbers -/

namespace Token

/-- Whether a token is a word or a number. -/
def isBare : Token → Bool
  | .null | .boolean _ | .integer _ | .float _ => true
  | _ => false

/-- A double among the tokens is read as itself. -/
def ReadsBack (read : FloatReader) : Token → Prop
  | .float f => Json.ReadsBack read f
  | _ => True

/-- What has the characters of numerals is no word. -/
theorem ne_word_of_numeric (h : ∀ c ∈ chars, IsNumeric c) {d : Char} (hd : ¬IsNumeric d)
    (ds : List Char) : chars ≠ d :: ds := by
  rintro rfl
  exact hd (h d (List.mem_cons_self ..))

theorem bareToken?_of_integer (h : ∀ c ∈ chars, IsNumeric c) {i : Int64}
    (hread : Number.ofText? read chars = some (.integer i)) :
    bareToken? read chars = some (.integer i) := by
  rw [bareToken?, if_neg (ne_word_of_numeric h (by decide) _),
    if_neg (ne_word_of_numeric h (by decide) _), if_neg (ne_word_of_numeric h (by decide) _), hread]
  rfl

theorem bareToken?_of_float (h : ∀ c ∈ chars, IsNumeric c) {f : Float}
    (hread : Number.ofText? read chars = some (.float f)) :
    bareToken? read chars = some (.float f) := by
  rw [bareToken?, if_neg (ne_word_of_numeric h (by decide) _),
    if_neg (ne_word_of_numeric h (by decide) _), if_neg (ne_word_of_numeric h (by decide) _), hread]
  rfl

/-- A word or number is read as itself. -/
theorem bareToken?_chars (bare : t.isBare = true) (back : t.ReadsBack read) :
    bareToken? read t.chars = some t := by
  cases t with
  | null => rfl
  | boolean b => cases b <;> rfl
  | integer n => exact bareToken?_of_integer (isNumeric_of_int64Text n) (ofText?_int64Text read n)
  | float f =>
    obtain ⟨text, htext, hback⟩ := back
    have hchars : Token.chars (.float f) = text := by rw [chars, htext, Option.getD_some]
    rw [hchars]
    exact bareToken?_of_float (isNumeric_of_floatText htext) hback
  | _ => cases bare

/-- Nothing in a word or number ends it. -/
theorem endsBare_chars (bare : t.isBare = true) (back : t.ReadsBack read) :
    ∀ c ∈ t.chars, endsBare c = false := by
  cases t with
  | null => simp [chars, endsBare, isBlank, punctuation?]
  | boolean b => cases b <;> simp [chars, endsBare, isBlank, punctuation?]
  | integer n => exact fun c hc => endsBare_of_isNumeric (isNumeric_of_int64Text n c hc)
  | float f =>
    obtain ⟨text, htext, -⟩ := back
    have hchars : Token.chars (.float f) = text := by rw [chars, htext, Option.getD_some]
    rw [hchars]
    exact fun c hc => endsBare_of_isNumeric (isNumeric_of_floatText htext c hc)
  | _ => cases bare

end Token

namespace Reader

/-- The reader has read these tokens, newest first. The last may be a word or number that goes on
as far as it can tell. -/
inductive Holds (read : FloatReader) : Reader → List Token → Prop where
  | between {ts : List Token} : Holds read ⟨ts, .between⟩ ts
  | bare {chars : List Char} {t : Token} {ts : List Token}
      (h : bareToken? read chars.reverse = some t) : Holds read ⟨ts, .bare chars⟩ (t :: ts)

/-- What ends a word or number is read as after it. -/
theorem Holds.step (h : r.Holds read ts) (hc : endsBare c = true) :
    r.step read c = some (.begin ts c) := by
  cases h with
  | between => rfl
  | bare hbare =>
    refine (if_pos hc).trans ?_
    rw [hbare]
    rfl

theorem Holds.finish (h : r.Holds read ts) : r.finish read = some ts.reverse := by
  cases h with
  | between => rfl
  | bare hbare =>
    simp only [Reader.finish, hbare]
    rfl

/-- The characters of a word or number that has begun. -/
theorem steps_bare (hcs : ∀ c ∈ cs, endsBare c = false) :
    cs.foldlM (Reader.step read) ⟨ts, .bare chars⟩ = some ⟨ts, .bare (cs.reverse ++ chars)⟩ := by
  induction cs generalizing chars with
  | nil => rfl
  | cons c cs ih =>
    obtain ⟨hc, hcs⟩ := List.forall_mem_cons.mp hcs
    have hstep : Reader.step read ⟨ts, .bare chars⟩ c = some ⟨ts, .bare (c :: chars)⟩ :=
      if_neg (by rw [← endsBare, hc]; exact Bool.false_ne_true)
    rw [foldlM_cons_of_eq_some hstep, ih hcs, List.reverse_cons, List.append_assoc,
      List.singleton_append]

/-! ## Strings -/

/-- A character that is written as a code is read as itself. -/
theorem steps_code (hc : c.toNat < 0x20) :
    ['\\', 'u', '0', '0', hexChar (c.toNat / 16), hexChar (c.toNat % 16)].foldlM
      (Reader.step read) ⟨ts, .quoted chars none⟩ = some ⟨ts, .quoted (c :: chars) none⟩ := by
  have hfirst := hexValue?_hexChar (c.toNat / 16) (by omega)
  have hsecond := hexValue?_hexChar (c.toNat % 16) (by omega)
  have hzero : hexValue? '0' = some 0 := rfl
  have hcode : c.toNat / 16 * 16 + c.toNat % 16 = c.toNat := by omega
  have hunit : pushUnit chars none c.toNat = some (.quoted (c :: chars) none) := by
    simp only [pushUnit]
    rw [if_neg (by omega), if_neg (by omega), Char.ofNat_toNat]
  simp [Reader.step, hzero, hfirst, hsecond, hcode, hunit]

/-- A character in a string is read as itself. -/
theorem steps_escaped (c : Char) :
    (escaped c).foldlM (Reader.step read) ⟨ts, .quoted chars none⟩ =
      some ⟨ts, .quoted (c :: chars) none⟩ := by
  have hnat {n : Nat} (h : c.toNat = n) : c = Char.ofNat n := by rw [← h, Char.ofNat_toNat]
  unfold escaped
  split
  · rename_i h; subst h; rfl
  split
  · rename_i h; subst h; rfl
  split
  · rename_i h
    rw [hnat h]
    rfl
  split
  · rename_i h; subst h; rfl
  split
  · rename_i h; subst h; rfl
  split
  · rename_i h
    rw [hnat h]
    rfl
  split
  · rename_i h; subst h; rfl
  split
  · rename_i h
    exact steps_code h
  · rename_i hquote hslash _ _ _ _ _ hplain
    have hstep : Reader.step read ⟨ts, .quoted chars none⟩ c =
        some ⟨ts, .quoted (c :: chars) none⟩ := by
      simp only [Reader.step, Option.isSome_none, Bool.false_or, decide_eq_true_eq]
      rw [if_neg hslash, if_neg hplain, if_neg hquote]
    rw [List.foldlM_cons, hstep]
    rfl

theorem steps_flatMap_escaped (cs : List Char) :
    (cs.flatMap escaped).foldlM (Reader.step read) ⟨ts, .quoted chars none⟩ =
      some ⟨ts, .quoted (cs.reverse ++ chars) none⟩ := by
  induction cs generalizing chars with
  | nil => rfl
  | cons c cs ih =>
    rw [List.flatMap_cons, foldlM_append_of_eq_some (steps_escaped c), ih, List.reverse_cons,
      List.append_assoc, List.singleton_append]

/-- **A string reads back.** -/
theorem Holds.steps_text (h : r.Holds read ts) (s : String) :
    (Token.chars (.text s)).foldlM (Reader.step read) r = some ⟨.text s :: ts, .between⟩ := by
  have hopen : r.step read '"' = some ⟨ts, .quoted [] none⟩ := h.step rfl
  have hclose : Reader.step read ⟨ts, .quoted s.toList.reverse none⟩ '"' =
      some ⟨.text s :: ts, .between⟩ := by
    simp [Reader.step]
  rw [Token.chars, List.cons_append, foldlM_cons_of_eq_some hopen,
    foldlM_append_of_eq_some (steps_flatMap_escaped s.toList), List.append_nil,
    foldlM_cons_of_eq_some hclose]
  rfl

/-! ## Rows of tokens -/

/-- A character that is a token reads back. -/
theorem Holds.step_punctuation (h : r.Holds read ts) (hc : punctuation? c = some t)
    (hblank : isBlank c = false) (hquote : c ≠ '"') :
    r.step read c = some ⟨t :: ts, .between⟩ := by
  have hends : endsBare c = true := by
    rw [endsBare, hc, Option.isSome_some, Bool.or_true]
  rw [h.step hends, Reader.begin, if_neg (by rw [hblank]; exact Bool.false_ne_true), if_neg hquote,
    hc]

/-- What is no word or number reads back wherever it stands. -/
theorem Holds.steps_of_not_bare (h : r.Holds read ts) (bare : t.isBare = false) :
    t.chars.foldlM (Reader.step read) r = some ⟨t :: ts, .between⟩ := by
  have hone {c : Char} (hc : punctuation? c = some t) (hblank : isBlank c = false)
      (hquote : c ≠ '"') : [c].foldlM (Reader.step read) r = some ⟨t :: ts, .between⟩ := by
    rw [List.foldlM_cons, h.step_punctuation hc hblank hquote]
    rfl
  cases t with
  | text s => exact h.steps_text s
  | openArray | closeArray | openObject | closeObject | comma | colon =>
    exact hone rfl rfl (by decide)
  | _ => cases bare

/-- A word or number reads back between others. -/
theorem steps_of_bare (bare : t.isBare = true) (back : t.ReadsBack read) :
    ∃ r, t.chars.foldlM (Reader.step read) ⟨ts, .between⟩ = some r ∧ r.Holds read (t :: ts) := by
  have hends := Token.endsBare_chars bare back
  have hback := Token.bareToken?_chars bare back
  cases hchars : t.chars with
  | nil =>
    have hnone : bareToken? read [] = none := rfl
    rw [hchars, hnone] at hback
    cases hback
  | cons c cs =>
    rw [hchars] at hends hback
    obtain ⟨hc, hcs⟩ := List.forall_mem_cons.mp hends
    have hbegin : Reader.step read ⟨ts, .between⟩ c = some ⟨ts, .bare [c]⟩ := by
      obtain ⟨hc, hpunctuation⟩ := Bool.or_eq_false_iff.mp hc
      obtain ⟨hblank, hquote⟩ := Bool.or_eq_false_iff.mp hc
      have hnone : punctuation? c = none := by
        rw [← Option.not_isSome_iff_eq_none, hpunctuation]
        exact Bool.false_ne_true
      simp only [Reader.step, Reader.begin]
      rw [if_neg (by rw [hblank]; exact Bool.false_ne_true), if_neg (of_decide_eq_false hquote),
        hnone]
    refine ⟨⟨ts, .bare (cs.reverse ++ [c])⟩, ?_, .bare ?_⟩
    · rw [foldlM_cons_of_eq_some hbegin, steps_bare hcs]
    · rwa [← List.reverse_cons, List.reverse_reverse]

/-- Two tokens that may be next to each other. -/
def Apart (t t' : Token) : Prop := t.isBare = false ∨ t'.isBare = false

/-- A row of tokens reads back after others, unless a word or number follows another. -/
theorem Holds.steps_row {row : List Token} (h : r.Holds read ts) (apart : row.IsChain Apart)
    (back : ∀ t ∈ row, t.ReadsBack read)
    (first : r = ⟨ts, .between⟩ ∨ ∀ t ∈ row.head?, t.isBare = false) :
    ∃ r', (row.flatMap Token.chars).foldlM (Reader.step read) r = some r' ∧
      r'.Holds read (row.reverse ++ ts) := by
  induction row generalizing r ts with
  | nil => exact ⟨r, rfl, h⟩
  | cons t row ih =>
    obtain ⟨ht, hrow⟩ := List.forall_mem_cons.mp back
    have hstep : ∃ r', t.chars.foldlM (Reader.step read) r = some r' ∧
        r'.Holds read (t :: ts) ∧ (t.isBare = false → r' = ⟨t :: ts, .between⟩) := by
      cases hbare : t.isBare with
      | false =>
        exact ⟨_, h.steps_of_not_bare hbare, .between, fun _ => rfl⟩
      | true =>
        have hbetween : r = ⟨ts, .between⟩ := first.resolve_right fun hfirst => by
          rw [hfirst t rfl] at hbare
          cases hbare
        obtain ⟨r', hr', hholds⟩ := steps_of_bare hbare ht
        exact ⟨r', hbetween ▸ hr', hholds, fun hfalse => by cases hfalse⟩
    obtain ⟨r', hr', hholds, hnext⟩ := hstep
    have hfirst : r' = ⟨t :: ts, .between⟩ ∨ ∀ t ∈ row.head?, t.isBare = false := by
      cases row with
      | nil => exact .inr (by simp)
      | cons t' row =>
        refine (List.isChain_cons_cons.mp apart).1.imp hnext fun hbare t'' ht'' => ?_
        rwa [← Option.some.inj ht'']
    obtain ⟨r'', hr'', hholds'⟩ := ih hholds apart.tail hrow hfirst
    refine ⟨r'', ?_, ?_⟩
    · rw [List.flatMap_cons, foldlM_append_of_eq_some hr', hr'']
    · rwa [List.reverse_cons, List.append_assoc, List.singleton_append]

end Reader

/-- **A row of tokens reads back** if no two words or numbers are next to each other in it. -/
theorem Token.ofText?_row (apart : ts.IsChain Reader.Apart) (back : ∀ t ∈ ts, t.ReadsBack read) :
    Token.ofText? read (ts.flatMap Token.chars) = some ts := by
  obtain ⟨r, hr, hholds⟩ := Reader.Holds.between.steps_row apart back (.inl rfl)
  rw [List.append_nil] at hholds
  simp only [Token.ofText?, hr, Option.bind_eq_bind, Option.bind_some, hholds.finish,
    List.reverse_reverse]

/-! ## The tokens of a text -/

namespace Token

/-- A double among the tokens is finite. -/
def Finite : Token → Prop
  | .float f => f.isFinite = true
  | _ => True

theorem finite_of_punctuation? (h : punctuation? c = some t) : t.Finite := by
  unfold punctuation? at h
  split_ifs at h
  all_goals
    cases h
    exact trivial

theorem finite_of_bareToken? (nearest : ReadsNearest read) (h : bareToken? read chars = some t) :
    t.Finite := by
  unfold bareToken? at h
  split_ifs at h
  case neg =>
    rw [Option.map_eq_some_iff] at h
    obtain ⟨n, hn, rfl⟩ := h
    cases n with
    | integer n => trivial
    | float f => exact nearest.isFinite hn
  all_goals
    cases h
    exact trivial

end Token

namespace Reader

/-- No double has been read that is not finite. -/
def Finite (r : Reader) : Prop := ∀ t ∈ r.tokens, t.Finite

theorem finite_begin (finite : ∀ t ∈ ts, t.Finite) (c : Char) : (Reader.begin ts c).Finite := by
  unfold Reader.begin
  split
  · exact finite
  split
  · exact finite
  split
  · rename_i h
    exact List.forall_mem_cons.mpr ⟨Token.finite_of_punctuation? h, finite⟩
  · exact finite

theorem Finite.step {r' : Reader} (nearest : ReadsNearest read) (finite : r.Finite)
    (h : r.step read c = some r') : r'.Finite := by
  unfold Reader.step at h
  split at h
  · cases h
    exact finite_begin finite c
  · split at h
    · rw [Option.map_eq_some_iff] at h
      obtain ⟨t, ht, rfl⟩ := h
      exact finite_begin
        (List.forall_mem_cons.mpr ⟨Token.finite_of_bareToken? nearest ht, finite⟩) c
    · cases h
      exact finite
  · split at h
    · cases h
      exact finite
    · split at h
      · cases h
      · split at h
        · cases h
          exact List.forall_mem_cons.mpr ⟨trivial, finite⟩
        · cases h
          exact finite
  · split at h
    · cases h
      exact finite
    · split at h
      · cases h
      · rw [Option.map_eq_some_iff] at h
        obtain ⟨e, -, rfl⟩ := h
        exact finite
  · simp only at h
    split at h
    · rw [Option.map_eq_some_iff] at h
      obtain ⟨n, -, rfl⟩ := h
      exact finite
    · rw [Option.bind_eq_bind, Option.bind_eq_some_iff] at h
      obtain ⟨values, -, h⟩ := h
      rw [Option.bind_eq_bind, Option.bind_eq_some_iff] at h
      obtain ⟨mode, -, h⟩ := h
      cases h
      exact finite

end Reader

/-- **A reader that takes the nearest double finds no double in a text that is not finite.** -/
theorem Token.finite_of_ofText? {text : List Char} (nearest : ReadsNearest read)
    (h : Token.ofText? read text = some ts) : ∀ t ∈ ts, t.Finite := by
  unfold Token.ofText? at h
  rw [Option.bind_eq_bind, Option.bind_eq_some_iff] at h
  obtain ⟨r, hr, h⟩ := h
  have hempty : Reader.Finite ⟨[], .between⟩ := fun t ht => absurd ht List.not_mem_nil
  have hfinite : r.Finite := foldlM_keeps (fun c _ _ _ hs hstep => hs.step nearest hstep) hempty hr
  unfold Reader.finish at h
  split at h
  · cases h
    exact fun t ht => hfinite t (List.mem_reverse.mp ht)
  · rw [Option.map_eq_some_iff] at h
    obtain ⟨t, ht, rfl⟩ := h
    refine fun t' ht' => ?_
    exact List.forall_mem_cons.mpr ⟨finite_of_bareToken? nearest ht, hfinite⟩ t'
      (List.mem_reverse.mp ht')
  · cases h

end ScriptStore.Json
