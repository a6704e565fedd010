import ScriptStore.Json.Number
import ScriptStore.Text.Utf8

/-!
# Tokens of JSON

A document is a row of tokens.

* `Token.chars` — how a token is written. Strings escape the quote, the backslash and control
  characters, and nothing else.
* `Token.ofText?` — the tokens of a text, if it consists of tokens and blanks. Its doubles are
  read by a `FloatReader`.

The reader takes one character at a time. `Mode` says what the character falls into: the space
between tokens, a word or number that has begun, or a string. A word or number ends at the first
character that can be part of neither.
-/

namespace ScriptStore.Json

inductive Token where
  | openArray
  | closeArray
  | openObject
  | closeObject
  | comma
  | colon
  | null
  | boolean (b : Bool)
  | integer (n : Int64)
  | float (f : Float)
  | text (s : String)

/-! ## Writing -/

/-- A digit of a control character's code. -/
def hexChar (n : Nat) : Char := Nat.digitChar n

/-- A character inside a string. -/
def escaped (c : Char) : List Char :=
  if c = '"' then ['\\', '"']
  else if c = '\\' then ['\\', '\\']
  else if c.toNat = 8 then ['\\', 'b']
  else if c = '\t' then ['\\', 't']
  else if c = '\n' then ['\\', 'n']
  else if c.toNat = 12 then ['\\', 'f']
  else if c = '\r' then ['\\', 'r']
  else if c.toNat < 0x20 then
    ['\\', 'u', '0', '0', hexChar (c.toNat / 16), hexChar (c.toNat % 16)]
  else [c]

def Token.chars : Token → List Char
  | .openArray => ['[']
  | .closeArray => [']']
  | .openObject => ['\x7b']
  | .closeObject => ['\x7d']
  | .comma => [',']
  | .colon => [':']
  | .null => ['n', 'u', 'l', 'l']
  | .boolean true => ['t', 'r', 'u', 'e']
  | .boolean false => ['f', 'a', 'l', 's', 'e']
  | .integer n => (int64Text n).toList
  | .float f => (floatText? f).getD ['n', 'u', 'l', 'l']
  | .text s => '"' :: s.toList.flatMap escaped ++ ['"']

/-! ## Reading -/

/-- What the next character falls into. Inside a string, `chars` are the characters so far,
newest first, and `high` is the first half of a pair of code units that wants its second. -/
inductive Mode where
  | between
  | bare (chars : List Char)
  | quoted (chars : List Char) (high : Option Nat)
  | escape (chars : List Char) (high : Option Nat)
  | code (chars : List Char) (high : Option Nat) (digits : List Char)
  deriving DecidableEq, Repr

/-- A reader between two characters: the tokens so far, newest first, and its mode. -/
structure Reader where
  tokens : List Token
  mode : Mode

/-- A word or a number. -/
def bareToken? (read : FloatReader) (chars : List Char) : Option Token :=
  if chars = ['n', 'u', 'l', 'l'] then some .null
  else if chars = ['t', 'r', 'u', 'e'] then some (.boolean true)
  else if chars = ['f', 'a', 'l', 's', 'e'] then some (.boolean false)
  else
    (Number.ofText? read chars).map fun
      | .integer n => .integer n
      | .float f => .float f

def punctuation? (c : Char) : Option Token :=
  if c = '[' then some .openArray
  else if c = ']' then some .closeArray
  else if c = '\x7b' then some .openObject
  else if c = '\x7d' then some .closeObject
  else if c = ',' then some .comma
  else if c = ':' then some .colon
  else none

def isBlank (c : Char) : Bool := c = ' ' || c = '\t' || c = '\n' || c = '\r'

/-- The character that an escape of one letter stands for. -/
def escapeChar? (c : Char) : Option Char :=
  if c = '"' ∨ c = '\\' ∨ c = '/' then some c
  else if c = 'b' then some '\x08'
  else if c = 'f' then some '\x0C'
  else if c = 'n' then some '\n'
  else if c = 'r' then some '\r'
  else if c = 't' then some '\t'
  else none

def hexValue? (c : Char) : Option Nat :=
  if c.isDigit then some (c.toNat - '0'.toNat)
  else if 'a' ≤ c ∧ c ≤ 'f' then some (c.toNat - 'a'.toNat + 10)
  else if 'A' ≤ c ∧ c ≤ 'F' then some (c.toNat - 'A'.toNat + 10)
  else none

/-- A code unit after `chars`. The second half of a pair needs the first before it. -/
def pushUnit (chars : List Char) (high : Option Nat) (unit : Nat) : Option Mode :=
  match high with
  | none =>
    if 0xD800 ≤ unit ∧ unit < 0xDC00 then some (.quoted chars (some unit))
    else if 0xDC00 ≤ unit ∧ unit < 0xE000 then none
    else some (.quoted (Char.ofNat unit :: chars) none)
  | some h =>
    if 0xDC00 ≤ unit ∧ unit < 0xE000 then
      some (.quoted (Char.ofNat (0x10000 + (h - 0xD800) * 0x400 + (unit - 0xDC00)) :: chars) none)
    else none

/-- A character between tokens. -/
def Reader.begin (tokens : List Token) (c : Char) : Reader :=
  if isBlank c then ⟨tokens, .between⟩
  else if c = '"' then ⟨tokens, .quoted [] none⟩
  else
    match punctuation? c with
    | some token => ⟨token :: tokens, .between⟩
    | none => ⟨tokens, .bare [c]⟩

def Reader.step (read : FloatReader) (r : Reader) (c : Char) : Option Reader :=
  match r.mode with
  | .between => some (.begin r.tokens c)
  | .bare chars =>
    if isBlank c || c = '"' || (punctuation? c).isSome then
      (bareToken? read chars.reverse).map fun token => .begin (token :: r.tokens) c
    else some ⟨r.tokens, .bare (c :: chars)⟩
  | .quoted chars high =>
    if c = '\\' then some ⟨r.tokens, .escape chars high⟩
    else if high.isSome || c.toNat < 0x20 then none
    else if c = '"' then some ⟨.text (String.ofList chars.reverse) :: r.tokens, .between⟩
    else some ⟨r.tokens, .quoted (c :: chars) none⟩
  | .escape chars high =>
    if c = 'u' then some ⟨r.tokens, .code chars high []⟩
    else if high.isSome then none
    else (escapeChar? c).map fun e => ⟨r.tokens, .quoted (e :: chars) none⟩
  | .code chars high digits =>
    let digits := digits ++ [c]
    if digits.length < 4 then
      (hexValue? c).map fun _ => ⟨r.tokens, .code chars high digits⟩
    else do
      let values ← digits.mapM hexValue?
      let mode ← pushUnit chars high (values.foldl (fun n d => n * 16 + d) 0)
      return ⟨r.tokens, mode⟩

/-- The tokens of a reader at the end of the text. -/
def Reader.finish (read : FloatReader) (r : Reader) : Option (List Token) :=
  match r.mode with
  | .between => some r.tokens.reverse
  | .bare chars => (bareToken? read chars.reverse).map fun token => (token :: r.tokens).reverse
  | _ => none

def Token.ofText? (read : FloatReader) (text : List Char) : Option (List Token) := do
  let reader ← text.foldlM (Reader.step read) ⟨[], .between⟩
  reader.finish read

end ScriptStore.Json
