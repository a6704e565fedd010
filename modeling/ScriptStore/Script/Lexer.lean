import ScriptStore.Script.Token

/-!
# The tokens of a source

`Token.ofSource` cuts a source into tokens. Blanks and comments stand between them, and of several
operators that begin at a place the longest counts. The row ends with the end of the source or with
the first lexical fault.

Every reader below takes what it reads off the front of a `Cursor` and answers the cursor behind it.
A round of the lexer takes at least one byte, so the length of the source bounds their number.
-/

namespace ScriptStore.Script

/-- The rest of a source and the line on which it starts. -/
structure Cursor where
  rest : Bytes
  line : Nat

abbrev Scan := Except SourceFault

def byte (c : Char) : UInt8 := UInt8.ofNat c.toNat

/-- The first byte as a character; NUL at the end. -/
def Cursor.peek (c : Cursor) : Char := (c.rest.head?.map fun b => Char.ofNat b.toNat).getD '\x00'

/-- The cursor behind `n` bytes of one line. -/
def Cursor.advance (c : Cursor) (n : Nat) : Cursor := ⟨c.rest.drop n, c.line⟩

def isNewline (b : UInt8) : Bool := b = 10 || b = 13

/-- The cursor behind a line break. A carriage return and a line feed together are one break. -/
def Cursor.skipBreak (c : Cursor) : Cursor :=
  match c.rest with
  | a :: b :: rest => if isNewline b && a ≠ b then ⟨rest, c.line + 1⟩ else ⟨b :: rest, c.line + 1⟩
  | _ => ⟨[], c.line + 1⟩

def isNameChar (c : Char) : Bool := c.isAlpha || c.isDigit || c = '_'

def isNameByte (b : UInt8) : Bool := isNameChar (Char.ofNat b.toNat)

/-! ## Long brackets -/

/-- The level of a long bracket that opens here: how many `=` stand between its two `[`. -/
def longLevel? (rest : Bytes) : Option Nat :=
  match rest with
  | b :: rest =>
    let level := (rest.takeWhile (· = byte '=')).length
    if b = byte '[' && (rest.drop level).head? = some (byte '[') then some level else none
  | [] => none

def longOpen (level : Nat) : Bytes := byte '[' :: List.replicate level (byte '=') ++ [byte '[']

def longClose (level : Nat) : Bytes := byte ']' :: List.replicate level (byte '=') ++ [byte ']']

/-- What a long bracket holds, up to what closes it, or the last line of the source if nothing
does. Line breaks of any kind become line feeds. -/
def longBody (close : Bytes) : Nat → Cursor → Bytes → Except Nat (Bytes × Cursor)
  | 0, c, _ => .error c.line
  | fuel + 1, c, held =>
    match c.rest with
    | [] => .error c.line
    | b :: rest =>
      if close.isPrefixOf c.rest then .ok (held.reverse, c.advance close.length)
      else if isNewline b then longBody close fuel c.skipBreak (10 :: held)
      else longBody close fuel ⟨rest, c.line⟩ (b :: held)

/-- The contents of a long bracket that opens at the cursor. A line break right behind the opening
is not part of them. -/
def longBracket (what : String) (level : Nat) (c : Cursor) : Scan (Bytes × Cursor) :=
  let inside := c.advance (level + 2)
  let body := if (inside.rest.head?.map isNewline).getD false then inside.skipBreak else inside
  match longBody (longClose level) body.rest.length.succ body [] with
  | .ok result => .ok result
  | .error last =>
    .error (.near last (bytes ("unfinished long " ++ what ++ " (starting at line ") ++
      natBytes c.line ++ bytes ")") (bytes "<eof>"))

/-! ## Blanks and comments -/

/-- The cursor at the next token. -/
def skipBlanks : Nat → Cursor → Except SourceFault Cursor
  | 0, c => .ok c
  | fuel + 1, c =>
    match c.rest with
    | 45 :: 45 :: rest =>
      match longLevel? rest with
      | some level => do
        let (_, c) ← longBracket "comment" level ⟨rest, c.line⟩
        skipBlanks fuel c
      | none => skipBlanks fuel ⟨rest.dropWhile fun b => !isNewline b, c.line⟩
    | b :: rest =>
      if isNewline b then skipBlanks fuel c.skipBreak
      else if isSpace (Char.ofNat b.toNat) then skipBlanks fuel ⟨rest, c.line⟩
      else .ok c
    | [] => .ok c

/-! ## Strings -/

/-- The bytes of a code point. Values beyond those of characters follow the same pattern, with up
to five continuation bytes. -/
def codePointBytes (x : Nat) : Bytes :=
  let tail (n : Nat) : UInt8 := UInt8.ofNat (0x80 + n % 0x40)
  if x < 0x80 then [UInt8.ofNat x]
  else if x < 0x800 then [UInt8.ofNat (0xC0 + x / 0x40), tail x]
  else if x < 0x10000 then [UInt8.ofNat (0xE0 + x / 0x1000), tail (x / 0x40), tail x]
  else if x < 0x200000 then
    [UInt8.ofNat (0xF0 + x / 0x40000), tail (x / 0x1000), tail (x / 0x40), tail x]
  else if x < 0x4000000 then
    [UInt8.ofNat (0xF8 + x / 0x1000000), tail (x / 0x40000), tail (x / 0x1000), tail (x / 0x40),
      tail x]
  else
    [UInt8.ofNat (0xFC + x / 0x40000000), tail (x / 0x1000000), tail (x / 0x40000),
      tail (x / 0x1000), tail (x / 0x40), tail x]

/-- A fault inside an escape. The message shows the string so far, the escape as written and the
byte that is wrong. -/
def escapeFault (message : String) (shown : Bytes) (escape : Bytes) (c : Cursor) : SourceFault :=
  .near c.line (bytes message) (quoted (beforeNul (shown ++ escape ++ c.rest.take 1)))

def hexPrefix (rest : Bytes) : List Char :=
  (latinChars rest).takeWhile isHexDigit

/-- The escape `\xXX`, from behind its `x`. -/
def hexEscape (shown : Bytes) (c : Cursor) : Scan (Bytes × Cursor) :=
  let digits := hexPrefix (c.rest.take 2)
  if digits.length = 2 then .ok ([UInt8.ofNat (valueInBase 16 digits)], c.advance 2)
  else
    .error (escapeFault "hexadecimal digit expected" shown
      (bytes "\\x" ++ c.rest.take digits.length) (c.advance digits.length))

/-- How many of the digits of a code point can be taken before its value passes 31 bits. -/
def codePointLimit : Nat := 0x7FFFFFFF

/-- The digits of a code point from left to right: the value, or the number of digits after which
it is too large. -/
def codePointValue : List Char → Nat → Nat → Except Nat Nat
  | [], value, _ => .ok value
  | d :: ds, value, taken =>
    if codePointLimit / 16 < value then .error taken
    else codePointValue ds (value * 16 + digitOf d) (taken + 1)

/-- The escape with a code point in braces, from behind its `u`. -/
def codePointEscape (shown : Bytes) (c : Cursor) : Scan (Bytes × Cursor) :=
  let written := bytes "\\u"
  if c.peek ≠ '\x7b' then .error (escapeFault "missing '\x7b'" shown written c)
  else
    let written := written ++ c.rest.take 1
    let c := c.advance 1
    let digits := hexPrefix c.rest
    if digits.isEmpty then .error (escapeFault "hexadecimal digit expected" shown written c)
    else
      match codePointValue digits 0 0 with
      | .error taken =>
        .error (escapeFault "UTF-8 value too large" shown (written ++ c.rest.take taken)
          (c.advance taken))
      | .ok value =>
        let written := written ++ c.rest.take digits.length
        let c := c.advance digits.length
        if c.peek ≠ '\x7d' then .error (escapeFault "missing '\x7d'" shown written c)
        else .ok (codePointBytes value, c.advance 1)

/-- The escape with up to three decimal digits, from its first digit. -/
def decimalEscape (shown : Bytes) (c : Cursor) : Scan (Bytes × Cursor) :=
  let digits := (latinChars (c.rest.take 3)).takeWhile Char.isDigit
  let value := digitsValue digits
  let behind := c.advance digits.length
  if value ≤ 255 then .ok ([UInt8.ofNat value], behind)
  else
    .error (escapeFault "decimal escape too large" shown
      (bytes "\\" ++ c.rest.take digits.length) behind)

/-- The cursor behind blanks and line breaks inside a string. -/
def skipSpaces : Nat → Cursor → Cursor
  | 0, c => c
  | fuel + 1, c =>
    match c.rest with
    | b :: rest =>
      if isNewline b then skipSpaces fuel c.skipBreak
      else if isSpace (Char.ofNat b.toNat) then skipSpaces fuel ⟨rest, c.line⟩
      else c
    | [] => c

/-- The escapes of one letter. -/
def letterEscape? (c : Char) : Option UInt8 :=
  match c with
  | 'a' => some 7
  | 'b' => some 8
  | 'f' => some 12
  | 'n' => some 10
  | 'r' => some 13
  | 't' => some 9
  | 'v' => some 11
  | '\\' => some 92
  | '"' => some 34
  | '\'' => some 39
  | _ => none

/-- An escape, from behind its backslash: the bytes it stands for. -/
def escape (shown : Bytes) (c : Cursor) : Scan (Bytes × Cursor) :=
  match c.rest with
  | [] => .ok ([], c)
  | b :: rest =>
    let letter := Char.ofNat b.toNat
    match letterEscape? letter with
    | some e => .ok ([e], c.advance 1)
    | none =>
      if letter = 'x' then hexEscape shown (c.advance 1)
      else if letter = 'u' then codePointEscape shown (c.advance 1)
      else if isNewline b then .ok ([10], c.skipBreak)
      else if letter = 'z' then .ok ([], skipSpaces rest.length.succ (c.advance 1))
      else if letter.isDigit then decimalEscape shown c
      else .error (escapeFault "invalid escape sequence" shown (bytes "\\") c)

/-- A string up to its closing quote; `held` are its bytes so far, newest first. -/
def shortString (quote : UInt8) : Nat → Cursor → Bytes → Scan (Bytes × Cursor)
  | 0, c, held => .ok (held.reverse, c)
  | fuel + 1, c, held =>
    match c.rest with
    | [] => .error (.near c.line (bytes "unfinished string") (bytes "<eof>"))
    | b :: rest =>
      if b = quote then .ok (held.reverse, ⟨rest, c.line⟩)
      else if isNewline b then
        .error (.near c.line (bytes "unfinished string")
          (quoted (beforeNul (quote :: held.reverse))))
      else if b = byte '\\' then do
        let (value, c) ← escape (quote :: held.reverse) ⟨rest, c.line⟩
        shortString quote fuel c (value.reverse ++ held)
      else shortString quote fuel ⟨rest, c.line⟩ (b :: held)

/-! ## Numbers -/

/-- How many bytes belong to a numeral: digits of either base and points, and a sign right behind
an exponent letter. -/
def numeralLength (exponent : Char) : Bytes → Nat
  | [] => 0
  | b :: rest =>
    let c := Char.ofNat b.toNat
    if c.toLower = exponent then
      match rest with
      | s :: rest =>
        if s = byte '+' || s = byte '-' then numeralLength exponent rest + 2
        else numeralLength exponent (s :: rest) + 1
      | [] => 1
    else if isHexDigit c || c = '.' then numeralLength exponent rest + 1
    else 0

/-- A numeral. A letter right behind it belongs to it and spoils it. -/
def numeral (c : Cursor) : Scan (Token × Cursor) :=
  let hex := (hexBody? (latinChars (c.rest.take 2))).isSome
  let lead := if hex then 2 else 0
  let length := lead + numeralLength (if hex then 'p' else 'e') (c.rest.drop lead)
  let behind := (c.advance length).peek
  let length := if behind.isAlpha || behind = '_' then length + 1 else length
  let written := c.rest.take length
  match Number.ofText? written with
  | some n => .ok (⟨.number n, written, c.line⟩, c.advance length)
  | none => .error (.near c.line (bytes "malformed number") (quoted written))

/-! ## Tokens -/

def operator? (rest : Bytes) : Option String :=
  operators.find? fun s => (bytes s).isPrefixOf rest

def word (c : Cursor) : Token × Cursor :=
  let written := c.rest.takeWhile isNameByte
  let text := String.ofList (latinChars written)
  let kind : TokenKind := if reservedWords.contains text then .fixed text else .name written
  (⟨kind, written, c.line⟩, c.advance written.length)

/-- A string in quotes or long brackets, if one begins here. -/
def string? (c : Cursor) : Option (Scan (Token × Cursor)) :=
  match c.rest with
  | b :: rest =>
    if b = byte '"' || b = byte '\'' then
      some do
        let (value, behind) ← shortString b rest.length.succ ⟨rest, c.line⟩ []
        return (⟨.string value, b :: value ++ [b], behind.line⟩, behind)
    else
      (longLevel? c.rest).map fun level => do
        let (value, behind) ← longBracket "string" level c
        let written := longOpen level ++ value ++ longClose level
        return (⟨.string value, written, behind.line⟩, behind)
  | [] => none

/-- The token at the cursor, which stands on no blank. -/
def tokenAt (c : Cursor) : Scan (Token × Cursor) :=
  match c.rest with
  | [] => .ok (⟨.finish, [], c.line⟩, c)
  | b :: rest =>
    let first := Char.ofNat b.toNat
    let second := (Cursor.mk rest c.line).peek
    if first.isAlpha || first = '_' then .ok (word c)
    else if first.isDigit || (first = '.' && second.isDigit) then numeral c
    else
      match string? c with
      | some result => result
      | none =>
        if first = '[' && second = '=' then
          .error (.near c.line (bytes "invalid long string delimiter")
            (quoted (b :: rest.takeWhile (· = byte '='))))
        else
          match operator? c.rest with
          | some s => .ok (⟨.fixed s, bytes s, c.line⟩, c.advance (bytes s).length)
          | none => .ok (⟨.stray b, [b], c.line⟩, c.advance 1)

def tokensFrom : Nat → Cursor → List Token
  | 0, c => [⟨.finish, [], c.line⟩]
  | fuel + 1, c =>
    match skipBlanks c.rest.length.succ c with
    | .error fault => [⟨.fault fault.message, [], c.line⟩]
    | .ok c =>
      match tokenAt c with
      | .error fault => [⟨.fault fault.message, [], c.line⟩]
      | .ok (token, behind) =>
        match token.kind with
        | .finish => [token]
        | _ => token :: tokensFrom fuel behind

def Token.ofSource (source : Bytes) : List Token :=
  tokensFrom source.length.succ ⟨source, 1⟩

end ScriptStore.Script
