import ScriptStore.Script.Numeral

/-!
# Tokens of a script

* `Token` — what the source is made of: names, strings, numbers, and reserved words and operators,
  which are `fixed`. A token remembers how it was written and the line on which it ends.
* `Token.near` — how a message about the source points at a token.
* `SourceFault` — what is wrong with a source, as the message that reports it.
-/

namespace ScriptStore.Script

/-- What a token is. A lexical fault is a token too: it is reported when it is reached. -/
inductive TokenKind where
  | name (s : Bytes)
  | string (s : Bytes)
  | number (n : Number)
  | fixed (s : String)
  | stray (b : UInt8)
  | finish
  | fault (message : Bytes)

/-- A token, how it was written, and the line on which it ends. -/
structure Token where
  kind : TokenKind
  written : Bytes
  line : Nat

def reservedWords : List String :=
  ["and", "break", "do", "else", "elseif", "end", "false", "for", "function", "goto", "if", "in",
    "local", "nil", "not", "or", "repeat", "return", "then", "true", "until", "while"]

/-- The operators and separators, longer ones before those that begin them. -/
def operators : List String :=
  ["...", "..", "//", "==", ">=", "<=", "~=", "<<", ">>", "::", "+", "-", "*", "/", "%", "^", "#",
    "&", "~", "|", "<", ">", "=", "(", ")", "\x7b", "\x7d", "[", "]", ";", ":", ",", "."]

def quoted (b : Bytes) : Bytes := bytes "'" ++ b ++ bytes "'"

def beforeNul (b : Bytes) : Bytes := b.takeWhile (· ≠ 0)

def natBytes (n : Nat) : Bytes := bytes (toString n)

/-- How a message points at a token. -/
def Token.near (t : Token) : Bytes :=
  match t.kind with
  | .finish => bytes "<eof>"
  | .fixed s => quoted (bytes s)
  | .stray b =>
    if 0x20 ≤ b && b < 0x7F then quoted [b]
    else quoted (bytes "<\\" ++ natBytes b.toNat ++ bytes ">")
  | _ => quoted (beforeNul t.written)

/-- A line of the source, as messages begin. -/
def position (line : Nat) : Bytes := bytes "script:" ++ natBytes line ++ bytes ": "

/-- What is wrong with a source, in words. -/
structure SourceFault where
  message : Bytes
  deriving DecidableEq

def SourceFault.atLine (line : Nat) (text : Bytes) : SourceFault := ⟨position line ++ text⟩

/-- A fault at a line that points at some text. -/
def SourceFault.near (line : Nat) (text : Bytes) (near : Bytes) : SourceFault :=
  .atLine line (text ++ bytes " near " ++ near)

end ScriptStore.Script
