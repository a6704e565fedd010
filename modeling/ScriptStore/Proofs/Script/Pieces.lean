import Mathlib
import ScriptStore.Script.Parser.Grammar

/-!
# Sources made of pieces

A source that has a blank around each of its words, operators and texts falls into just these: the
lexer cuts it where the blanks are.

* `Piece`, `Piece.written` — a part of a source and how it is written. A text stands in quotes with
  all of its bytes escaped, so it may be any text at all.
* `sourceOf` — the source of a row of pieces, all on one line.
* `Piece.Reads` — the lexer makes one token of a piece.
* `Token.ofSource_sourceOf` — **the tokens of such a source are those of its pieces**.
-/

namespace ScriptStore.Script

/-! ## Pieces -/

/-- A reserved word or an operator, a name, or a text in quotes. -/
inductive Piece where
  | fixed (s : String)
  | name (s : String)
  | text (s : String)

/-- The three decimal digits of a byte. -/
def byteDigits (b : UInt8) : List Char :=
  [b.toNat / 100, b.toNat / 10 % 10, b.toNat % 10].map Nat.digitChar

/-- A byte as an escape. -/
def escapedByte (b : UInt8) : List Char := '\\' :: byteDigits b

def Piece.written : Piece → List Char
  | fixed s | name s => s.toList
  | text s => '"' :: (bytes s).flatMap escapedByte ++ ['"']

/-- A source with a blank around each piece. -/
def sourceOf (pieces : List Piece) : String :=
  String.ofList (' ' :: pieces.flatMap fun p => p.written ++ [' '])

/-- What the lexer makes of a piece on the first line. -/
def Piece.token : Piece → Token
  | fixed s => ⟨.fixed s, bytes s, 1⟩
  | name s => ⟨.name (bytes s), bytes s, 1⟩
  | text s => ⟨.string (bytes s), byte '"' :: bytes s ++ [byte '"'], 1⟩

/-- A piece becomes a token if a blank follows. -/
structure Piece.Reads (p : Piece) : Prop where
  ascii : ∀ c ∈ p.written, c.toNat < 128
  start (rest : Bytes) (fuel : Nat) : skipBlanks (fuel + 1) ⟨p.written.map byte ++ 32 :: rest, 1⟩ =
    .ok ⟨p.written.map byte ++ 32 :: rest, 1⟩
  read (rest : Bytes) :
    tokenAt ⟨p.written.map byte ++ 32 :: rest, 1⟩ = .ok (p.token, ⟨32 :: rest, 1⟩)

/-! ## Texts in quotes -/

theorem forall_byte {p : UInt8 → Prop} (h : ∀ n < 256, p (UInt8.ofNat n)) (b : UInt8) : p b := by
  have hb := h b.toNat b.toNat_lt
  rwa [UInt8.ofNat_toNat] at hb

theorem isDigit_byteDigits (b : UInt8) :
    (byteDigits b).all Char.isDigit = true ∧ (byteDigits b).all (·.toNat < 128) = true := by
  revert b
  exact forall_byte (by decide +kernel)

theorem digitsValue_byteDigits (b : UInt8) :
    digitsValue (byteDigits b) = b.toNat ∧ latinChars ((byteDigits b).map byte) = byteDigits b := by
  revert b
  exact forall_byte (by decide +kernel)

theorem decimalEscape_byteDigits (b : UInt8) (shown rest : Bytes) (line : Nat) :
    decimalEscape shown ⟨(byteDigits b).map byte ++ rest, line⟩ = .ok ([b], ⟨rest, line⟩) := by
  obtain ⟨hvalue, hlatin⟩ := digitsValue_byteDigits b
  have htake : ((byteDigits b).map byte ++ rest).take 3 = (byteDigits b).map byte := rfl
  have hall : (byteDigits b).takeWhile Char.isDigit = byteDigits b :=
    List.takeWhile_eq_self_iff.mpr (List.all_eq_true.mp (isDigit_byteDigits b).1)
  have hle : b.toNat ≤ 255 := Nat.le_of_lt_succ b.toNat_lt
  simp only [decimalEscape, htake, hlatin, hall, hvalue, if_pos hle, UInt8.ofNat_toNat]
  rfl

/-- The three digits of a byte escape it. -/
theorem escape_byteDigits (b : UInt8) (shown rest : Bytes) (line : Nat) :
    escape shown ⟨(byteDigits b).map byte ++ rest, line⟩ = .ok ([b], ⟨rest, line⟩) := by
  rw [← decimalEscape_byteDigits b shown rest line]
  have hlead : b.toNat / 100 < 10 := by
    have hb := b.toNat_lt
    omega
  simp only [byteDigits, List.map_cons, List.cons_append]
  generalize b.toNat / 100 = lead at *
  interval_cases lead <;> rfl

/-- A string with all of its bytes escaped. -/
theorem shortString_escaped (rest : Bytes) (line : Nat) (s : Bytes) :
    ∀ (held : Bytes) (fuel : Nat), s.length < fuel →
      shortString (byte '"') fuel ⟨(s.flatMap escapedByte).map byte ++ byte '"' :: rest, line⟩ held =
        .ok (held.reverse ++ s, ⟨rest, line⟩) := by
  induction s with
  | nil =>
    intro held fuel enough
    obtain ⟨fuel, rfl⟩ := Nat.exists_eq_succ_of_ne_zero (Nat.ne_of_gt enough)
    simp [shortString]
  | cons b s ih =>
    intro held fuel enough
    obtain ⟨fuel, rfl⟩ := Nat.exists_eq_succ_of_ne_zero (Nat.ne_of_gt (Nat.zero_lt_of_lt enough))
    have hrest := ih (b :: held) fuel (by simpa using enough)
    have hescape := escape_byteDigits b (byte '"' :: held.reverse)
      ((s.flatMap escapedByte).map byte ++ byte '"' :: rest) line
    have hfront : ((b :: s).flatMap escapedByte).map byte ++ byte '"' :: rest =
        byte '\\' :: ((byteDigits b).map byte ++
          ((s.flatMap escapedByte).map byte ++ byte '"' :: rest)) := by
      simp [escapedByte]
    have hquote : byte '\\' ≠ byte '"' := by decide
    have hbreak : isNewline (byte '\\') = false := by decide
    simp only [hfront, shortString, if_neg hquote, hbreak, Bool.false_eq_true, if_false, if_true]
    rw [hescape]
    show shortString (byte '"') fuel _ (b :: held) = _
    rw [hrest, List.reverse_cons, List.append_assoc]
    rfl

theorem length_escaped (s : Bytes) : s.length ≤ ((s.flatMap escapedByte).map byte).length := by
  induction s with
  | nil => exact Nat.le_refl 0
  | cons b s ih =>
    simp only [List.flatMap_cons, List.map_append, List.length_append, List.length_cons]
    have hbyte : ((escapedByte b).map byte).length = 4 := rfl
    omega

/-- Any text can stand in quotes. -/
theorem Piece.reads_text (s : String) : (text s).Reads where
  ascii := by
    intro c hc
    simp only [written, List.mem_append, List.mem_cons, List.mem_flatMap, escapedByte] at hc
    rcases hc with (rfl | ⟨b, -, rfl | hc⟩) | (rfl | hc)
    · decide
    · decide
    · exact of_decide_eq_true (List.all_eq_true.mp (isDigit_byteDigits b).2 c hc)
    · decide
    · cases hc
  start _ _ := rfl
  read rest := by
    have hbytes : (text s).written.map byte ++ 32 :: rest =
        byte '"' :: (((bytes s).flatMap escapedByte).map byte ++ byte '"' :: 32 :: rest) := by
      simp [written]
    have hshort := shortString_escaped (32 :: rest) 1 (bytes s) []
      (((bytes s).flatMap escapedByte).map byte ++ byte '"' :: 32 :: rest).length.succ (by
        have := length_escaped (bytes s)
        simp only [List.length_append]
        omega)
    rw [hbytes]
    show Except.bind (shortString (byte '"') _ ⟨_, 1⟩ []) _ = _
    rw [hshort]
    rfl

/-! ## The tokens of a source -/

/-- The bytes of a text of ASCII characters. -/
theorem bytes_ofList {cs : List Char} (ascii : ∀ c ∈ cs, c.toNat < 128) :
    bytes (String.ofList cs) = cs.map byte := by
  have hone : ∀ c ∈ cs, String.utf8EncodeChar c = [byte c] := by
    intro c hc
    have hle : c.val.toNat ≤ 0x7F := Nat.le_of_lt_succ (ascii c hc)
    rw [String.utf8EncodeChar, if_pos hle]
    rfl
  rw [bytes, Utf8.encode, String.toList_ofList, List.map_eq_flatMap]
  exact List.flatMap_congr hone

/-- The lexer skips a blank. -/
theorem skipBlanks_blank (fuel : Nat) (rest : Bytes) (line : Nat) :
    skipBlanks (fuel + 1) ⟨32 :: rest, line⟩ = skipBlanks fuel ⟨rest, line⟩ := rfl

/-- The bytes of pieces, a blank behind each. -/
def piecesBytes (pieces : List Piece) : Bytes :=
  (pieces.flatMap fun p => p.written ++ [' ']).map byte

theorem piecesBytes_cons (p : Piece) (pieces : List Piece) :
    piecesBytes (p :: pieces) = p.written.map byte ++ 32 :: piecesBytes pieces := by
  have hblank : byte ' ' = 32 := rfl
  simp [piecesBytes, hblank]

theorem length_le_piecesBytes (pieces : List Piece) :
    pieces.length ≤ (piecesBytes pieces).length := by
  induction pieces with
  | nil => exact Nat.le_refl 0
  | cons p pieces ih =>
    simp only [piecesBytes_cons, List.length_append, List.length_cons]
    omega

/-- The tokens of pieces that stand between blanks. -/
theorem tokensFrom_pieces {pieces : List Piece} (reads : ∀ p ∈ pieces, p.Reads) :
    ∀ fuel, pieces.length < fuel →
      tokensFrom fuel ⟨32 :: piecesBytes pieces, 1⟩ =
        pieces.map Piece.token ++ [⟨.finish, [], 1⟩] := by
  induction pieces with
  | nil =>
    intro fuel enough
    obtain ⟨fuel, rfl⟩ := Nat.exists_eq_succ_of_ne_zero (Nat.ne_of_gt enough)
    rfl
  | cons p pieces ih =>
    intro fuel enough
    obtain ⟨fuel, rfl⟩ := Nat.exists_eq_succ_of_ne_zero (Nat.ne_of_gt (Nat.zero_lt_of_lt enough))
    obtain ⟨-, hstart, hread⟩ := reads p (List.mem_cons_self ..)
    have hrest := ih (fun q hq => reads q (List.mem_cons_of_mem _ hq)) fuel
      (Nat.lt_of_succ_lt_succ enough)
    have hskip : skipBlanks (32 :: piecesBytes (p :: pieces)).length.succ
        ⟨32 :: piecesBytes (p :: pieces), 1⟩ =
          .ok ⟨p.written.map byte ++ 32 :: piecesBytes pieces, 1⟩ := by
      rw [skipBlanks_blank, piecesBytes_cons, List.length_cons]
      exact hstart _ _
    simp only [tokensFrom, hskip, hread, hrest]
    cases p <;> rfl

/-- **The tokens of a source made of pieces are those of the pieces.** -/
theorem Token.ofSource_sourceOf {pieces : List Piece} (reads : ∀ p ∈ pieces, p.Reads) :
    Token.ofSource (bytes (sourceOf pieces)) =
      pieces.map Piece.token ++ [⟨.finish, [], 1⟩] := by
  have hascii : ∀ c ∈ ' ' :: pieces.flatMap (fun p => p.written ++ [' ']), c.toNat < 128 := by
    intro c hc
    simp only [List.mem_cons, List.mem_flatMap, List.mem_append] at hc
    rcases hc with rfl | ⟨p, hp, hc | rfl | hc⟩
    · decide
    · exact (reads p hp).ascii c hc
    · decide
    · cases hc
  have hbytes : bytes (sourceOf pieces) = 32 :: piecesBytes pieces := bytes_ofList hascii
  have hlength := length_le_piecesBytes pieces
  rw [Token.ofSource, hbytes]
  exact tokensFrom_pieces reads _ (by simp only [List.length_cons]; omega)

end ScriptStore.Script
