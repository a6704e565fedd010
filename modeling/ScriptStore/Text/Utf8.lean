/-!
# UTF-8 text

Strings inside scripts are plain bytes; text is made of characters. This module turns one into
the other.

* `encode` — the bytes of a text.
* `decode` — the text that bytes stand for. Bytes that are no UTF-8 do not fail: each maximal
  run that begins a character without completing it becomes one replacement character, and so
  does each byte that can begin none.

The decoder reads one byte at a time. Between characters nothing is pending; inside one,
`Pending` holds what has been read and which byte may follow.
-/

namespace ScriptStore.Utf8

/-- The character that stands for bytes that are no UTF-8. -/
def replacement : Char := '\uFFFD'

/-- A character that has begun: the value of its bits so far, how many continuation bytes are
owed, and the least and greatest byte that may come next. -/
structure Pending where
  value : Nat
  owed : Nat
  low : Nat
  high : Nat
  deriving DecidableEq, Repr

/-- What a byte begins when nothing is pending. -/
inductive Start where
  | char (c : Char)
  | lead (p : Pending)
  | invalid
  deriving DecidableEq, Repr

/-- The role of a byte between characters. The narrowed ranges after `E0`, `ED`, `F0` and `F4`
exclude overlong forms, surrogates and values above `10FFFF`. -/
def start (b : UInt8) : Start :=
  let n := b.toNat
  if n < 0x80 then .char (Char.ofNat n)
  else if n < 0xC2 then .invalid
  else if n < 0xE0 then .lead ⟨n - 0xC0, 1, 0x80, 0xBF⟩
  else if n < 0xF0 then
    .lead ⟨n - 0xE0, 2, if n = 0xE0 then 0xA0 else 0x80, if n = 0xED then 0x9F else 0xBF⟩
  else if n < 0xF5 then
    .lead ⟨n - 0xF0, 3, if n = 0xF0 then 0x90 else 0x80, if n = 0xF4 then 0x8F else 0xBF⟩
  else .invalid

/-- A decoder between two bytes: the characters so far, newest first, and the one begun. -/
structure Decoder where
  chars : List Char
  pending : Option Pending
  deriving Repr

def Decoder.empty : Decoder := ⟨[], none⟩

/-- One byte between characters. -/
def Decoder.begin (d : Decoder) (b : UInt8) : Decoder :=
  match start b with
  | .char c => ⟨c :: d.chars, none⟩
  | .lead p => ⟨d.chars, some p⟩
  | .invalid => ⟨replacement :: d.chars, none⟩

/-- One byte. A byte that cannot continue the pending character ends it as invalid and is then
read as the beginning of the next. -/
def Decoder.step (d : Decoder) (b : UInt8) : Decoder :=
  match d.pending with
  | none => d.begin b
  | some p =>
    if p.low ≤ b.toNat ∧ b.toNat ≤ p.high then
      let value := p.value * 64 + (b.toNat - 0x80)
      if p.owed ≤ 1 then ⟨Char.ofNat value :: d.chars, none⟩
      else ⟨d.chars, some ⟨value, p.owed - 1, 0x80, 0xBF⟩⟩
    else Decoder.begin ⟨replacement :: d.chars, none⟩ b

/-- The characters of a finished decoder; one that is still pending is invalid. -/
def Decoder.finish (d : Decoder) : List Char :=
  match d.pending with
  | none => d.chars.reverse
  | some _ => (replacement :: d.chars).reverse

def decode (bytes : List UInt8) : String :=
  String.ofList (bytes.foldl Decoder.step .empty).finish

def encode (text : String) : List UInt8 :=
  text.toList.flatMap String.utf8EncodeChar

example : decode [0x61, 0xE2, 0x82, 0x62, 0xF0, 0x9F, 0x98, 0x80, 0xC3] = "a\uFFFDb😀\uFFFD" := by
  decide

end ScriptStore.Utf8
